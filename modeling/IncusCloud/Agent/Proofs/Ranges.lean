import IncusCloud.Agent.Proofs.Addresses
import IncusCloud.Forms.AddressPools

/-!
# What a range means

`Denotes` is what the text of a range stands for: an address, two addresses joined by a dash, or an
address and the decimal length of a prefix. `parseRange` reads each of these as that set; it also
reads texts that are none of them, where it leaves a part out or `Number` takes a prefix that is not
decimal digits (`ReadWhole`). The UI's check lets none of these pass.
-/

namespace IncusCloud.Agent

open Lib RegularExpression List Option
open Forms (octetPattern ipv4 prefixLength entryPattern toInt entriesOf entryError metallbAddressesError)
open String (ofList toList_ofList)

variable {s t text : List Char} {k n : ℕ} {S : Set ℕ} {value : String}
  {ch : Char} {rest : List Char}

/-! ### White space -/

theorem trim_split (s : List Char) :
    ∃ l r, s = l ++ trim s ++ r ∧ (∀ ch ∈ l, isSpace ch = true) ∧ ∀ ch ∈ r, isSpace ch = true := by
  refine ⟨s.takeWhile isSpace, ((s.dropWhile isSpace).reverse.takeWhile isSpace).reverse, ?_, ?_, ?_⟩
  · have hback : trim s ++ ((s.dropWhile isSpace).reverse.takeWhile isSpace).reverse =
      s.dropWhile isSpace := by
      unfold trim
      rw [← reverse_append, takeWhile_append_dropWhile, reverse_reverse]
    rw [append_assoc, hback, takeWhile_append_dropWhile]
  · exact fun ch => mem_takeWhile_imp
  · exact fun ch hch => mem_takeWhile_imp (mem_reverse.mp hch)

theorem trim_spaced {l r : List Char} (hl : ∀ ch ∈ l, isSpace ch = true) (ht : ∀ ch ∈ t, isSpace ch = false)
    (hr : ∀ ch ∈ r, isSpace ch = true) (hne : t ≠ []) : trim (l ++ t ++ r) = t := by
  have hkeep : ∀ x : List Char, x ≠ [] → (∀ ch ∈ x, isSpace ch = false) → ∀ y,
      (x ++ y).dropWhile isSpace = x ++ y := by
    intro x hx hxs y
    obtain ⟨ch, x, rfl⟩ := exists_cons_of_ne_nil hx
    rw [cons_append, dropWhile_cons_of_neg (by simp [hxs ch mem_cons_self])]
  unfold trim
  rw [append_assoc, dropWhile_append_of_pos hl, hkeep t hne ht, reverse_append,
    dropWhile_append_of_pos fun ch hch => hr ch (mem_reverse.mp hch)]
  have hback := hkeep t.reverse (by simpa using hne) (fun ch hch => ht ch (mem_reverse.mp hch)) []
  rw [append_nil] at hback
  rw [hback, reverse_reverse]

/-! ### Addresses -/

structure IsOctet (s : List Char) : Prop where
  digits : isDigits s = true
  short : s.length ≤ 3
  le : decimal s ≤ 255

/-- Four octets between dots, and the number they stand for. -/
inductive Dotted : List Char → ℕ → Prop
  | mk {a b c d : List Char} (ha : IsOctet a) (hb : IsOctet b) (hc : IsOctet c) (hd : IsOctet d) :
    Dotted (a ++ '.' :: (b ++ '.' :: (c ++ '.' :: d)))
      (((decimal a * 256 + decimal b) * 256 + decimal c) * 256 + decimal d)

def Address (s : List Char) (n : ℕ) : Prop :=
  ∃ l t r, s = l ++ t ++ r ∧ (∀ ch ∈ l, isSpace ch = true) ∧ (∀ ch ∈ r, isSpace ch = true) ∧ Dotted t n

theorem isDigits_iff : isDigits s = true ↔ s ≠ [] ∧ ∀ ch ∈ s, ch.isDigit = true := by
  simp [isDigits]

theorem octet_eq_some : octet s = some k ↔ IsOctet s ∧ decimal s = k := by
  unfold octet
  split_ifs with h
  · simp only [Bool.and_eq_true, decide_eq_true_eq] at h
    rw [some_inj]
    exact ⟨fun heq => ⟨⟨h.1.1, h.1.2, h.2⟩, heq⟩, fun heq => heq.2⟩
  · simp only [Bool.and_eq_true, decide_eq_true_eq] at h
    constructor
    · intro hnone
      cases hnone
    · rintro ⟨hs, -⟩
      exact absurd ⟨⟨hs.digits, hs.short⟩, hs.le⟩ h

theorem IsOctet.not_mem (h : IsOctet s) (hch : ch.isDigit = false) : ch ∉ s := by
  intro hmem
  rw [(isDigits_iff.mp h.digits).2 ch hmem] at hch
  cases hch

theorem Dotted.mem (h : Dotted s n) (hch : ch ∈ s) : ch = '.' ∨ ch.isDigit = true := by
  cases h with
  | mk ha hb hc hd =>
    have hdigit : ∀ {x : List Char}, IsOctet x → ch ∈ x → ch.isDigit = true :=
      fun hx hmem => (isDigits_iff.mp hx.digits).2 ch hmem
    simp only [mem_append, mem_cons] at hch
    rcases hch with h | h | h | h | h | h | h
    · exact .inr (hdigit ha h)
    · exact .inl h
    · exact .inr (hdigit hb h)
    · exact .inl h
    · exact .inr (hdigit hc h)
    · exact .inl h
    · exact .inr (hdigit hd h)

theorem Dotted.isSpace (h : Dotted s n) (hch : ch ∈ s) : isSpace ch = false := by
  rcases h.mem hch with rfl | hdigit
  · decide
  · exact isSpace_digit hdigit

theorem Dotted.ne_nil (h : Dotted s n) : s ≠ [] := by
  cases h
  simp

theorem Dotted.splitOn {a b c d : List Char} (ha : IsOctet a) (hb : IsOctet b) (hc : IsOctet c)
    (hd : IsOctet d) : (a ++ '.' :: (b ++ '.' :: (c ++ '.' :: d))).splitOn '.' = [a, b, c, d] := by
  have hdot : ('.' : Char).isDigit = false := by decide
  rw [splitOn_append_cons_self_of_not_mem (ha.not_mem hdot),
    splitOn_append_cons_self_of_not_mem (hb.not_mem hdot),
    splitOn_append_cons_self_of_not_mem (hc.not_mem hdot), splitOn_eq_singleton (hd.not_mem hdot)]

theorem mapM_octet_eq {fields : List (List Char)} {a b c d : ℕ} (h : fields.mapM octet = some [a, b, c, d]) :
    ∃ w x y z, fields = [w, x, y, z] ∧ octet w = some a ∧ octet x = some b ∧ octet y = some c ∧
      octet z = some d := by
  rcases fields with _ | ⟨w, _ | ⟨x, _ | ⟨y, _ | ⟨z, _ | ⟨v, rest⟩⟩⟩⟩⟩ <;>
    simp [mapM_cons, bind_eq_some_iff] at h
  · obtain ⟨ha, hb, hc, hd⟩ := h
    exact ⟨w, x, y, z, rfl, ha, hb, hc, hd⟩

theorem ipToInt_iff {ip : String} : ipToInt ip = some n ↔ Address ip.toList n := by
  constructor
  · intro h
    unfold ipToInt at h
    split at h
    · rename_i a b c d hoctets
      obtain rfl := some.inj h
      obtain ⟨w, x, y, z, hfields, hw, hx, hy, hz⟩ := mapM_octet_eq hoctets
      obtain ⟨l, r, hsplit, hl, hr⟩ := trim_split ip.toList
      obtain ⟨ha, rfl⟩ := octet_eq_some.mp hw
      obtain ⟨hb, rfl⟩ := octet_eq_some.mp hx
      obtain ⟨hc, rfl⟩ := octet_eq_some.mp hy
      obtain ⟨hd, rfl⟩ := octet_eq_some.mp hz
      have htrim : trim ip.toList = w ++ '.' :: (x ++ '.' :: (y ++ '.' :: z)) := by
        have hjoin : ['.'].intercalate ((trim ip.toList).splitOn '.') = trim ip.toList :=
          intercalate_splitOn '.'
        rw [hfields] at hjoin
        rw [← hjoin]
        simp
      rw [htrim] at hsplit
      exact ⟨l, _, r, hsplit, hl, hr, .mk ha hb hc hd⟩
    · cases h
  · rintro ⟨l, t, r, hs, hl, hr, hdotted⟩
    unfold ipToInt
    rw [hs, trim_spaced hl (fun ch => hdotted.isSpace) hr hdotted.ne_nil]
    cases hdotted with
    | mk ha hb hc hd =>
      rw [Dotted.splitOn ha hb hc hd]
      simp [mapM_cons, octet_eq_some.mpr ⟨ha, rfl⟩, octet_eq_some.mpr ⟨hb, rfl⟩,
        octet_eq_some.mpr ⟨hc, rfl⟩, octet_eq_some.mpr ⟨hd, rfl⟩]

theorem Address.not_mem (h : Address s n) (hspace : isSpace ch = false) (hdot : ch ≠ '.')
    (hdigit : ch.isDigit = false) : ch ∉ s := by
  obtain ⟨l, t, r, rfl, hl, hr, hdotted⟩ := h
  intro hch
  rcases mem_append.mp hch with hch | hch
  · rcases mem_append.mp hch with hch | hch
    · rw [hl ch hch] at hspace
      cases hspace
    · rcases hdotted.mem hch with h | h
      · exact hdot h
      · rw [h] at hdigit
        cases hdigit
  · rw [hr ch hch] at hspace
    cases hspace

theorem Address.no_dash (h : Address s n) : '-' ∉ s := h.not_mem (by decide) (by decide) (by decide)

theorem Address.no_slash (h : Address s n) : '/' ∉ s := h.not_mem (by decide) (by decide) (by decide)

theorem Dotted.address (h : Dotted s n) : Address s n := ⟨[], s, [], by simp, by simp, by simp, h⟩

/-! ### Ranges -/

inductive Denotes : List Char → Set ℕ → Prop
  | address {s : List Char} {n : ℕ} (hs : Address s n) : Denotes s {n}
  | between {s t : List Char} {m n : ℕ} (hs : Address s m) (ht : Address t n) (hle : m ≤ n) :
    Denotes (s ++ '-' :: t) (Set.Icc m n)
  /-- The addresses that agree with one in the first bits. -/
  | block {s bits : List Char} {n : ℕ} (hs : Address s n) (hdigits : isDigits bits = true)
    (hle : decimal bits ≤ 32) :
    Denotes (s ++ '/' :: bits) {k | k / 2 ^ (32 - decimal bits) = n / 2 ^ (32 - decimal bits)}

theorem set_block (base bits : ℕ) :
    (IpRange.block base bits).set = {k | k / 2 ^ (32 - bits) = base / 2 ^ (32 - bits)} := by
  have hpos : 0 < 2 ^ (32 - bits) := Nat.pow_pos (by decide)
  ext k
  show base / 2 ^ (32 - bits) * 2 ^ (32 - bits) ≤ k ∧
    k ≤ base / 2 ^ (32 - bits) * 2 ^ (32 - bits) + (2 ^ (32 - bits) - 1) ↔ _
  rw [Set.mem_ofPred_eq, Nat.div_eq_iff hpos]
  omega

theorem no_dash_of_digits (h : isDigits s = true) (hch : ch.isDigit = false) : ch ∉ s := by
  intro hmem
  rw [(isDigits_iff.mp h).2 ch hmem] at hch
  cases hch

theorem trim_digits (h : isDigits s = true) : trim s = s :=
  trim_eq fun ch hch => isSpace_digit ((isDigits_iff.mp h).2 ch hch)

theorem wholeNumber_bits (h : isDigits s = true) {b : ℤ} (h0 : 0 ≤ b) (hb : b ≤ 32) :
    wholeNumber s = some b ↔ decimal s = b.toNat := by
  obtain ⟨hne, hall⟩ := isDigits_iff.mp h
  obtain ⟨k, rfl⟩ := Int.eq_ofNat_of_zero_le h0
  have hk : k < 2 ^ 52 := by
    have : k ≤ 32 := by omega
    omega
  exact wholeNumber_small hne hall hk

theorem firstTwo_append {sep : Char} (h : sep ∉ s) (rest : List Char) :
    firstTwo sep (s ++ sep :: rest) = (ofList s, ofList (cut sep rest).1) := by
  unfold firstTwo
  dsimp only
  rw [splitOn_append_cons_self_of_not_mem h, List.getElem?_cons_zero, List.getElem?_cons_succ, head_splitOn]
  rfl

variable {r : IpRange}

theorem parse_dash (htext : trim value.toList = s ++ '-' :: rest) (hs : '-' ∉ s) :
    parseRange value = some r ↔
      ipToInt (ofList s) = some r.start ∧ ipToInt (ofList (cut '-' rest).1) = some r.stop := by
  unfold parseRange
  rw [htext, if_pos (by simp), firstTwo_append hs]
  dsimp only
  obtain ⟨start, stop, hle⟩ := r
  cases ha : ipToInt (ofList s) with
  | none => simp
  | some m =>
    cases hb : ipToInt (ofList (cut '-' rest).1) with
    | none => simp
    | some n =>
      dsimp only
      split_ifs with h
      · simp
      · simp only [false_iff, some_inj, not_and]
        rintro rfl rfl
        exact h hle

theorem parse_slash (htext : trim value.toList = s ++ '/' :: rest) (hs : '/' ∉ s)
    (hdash : '-' ∉ trim value.toList) :
    parseRange value = some r ↔
      ∃ (n : ℕ) (b : ℤ), ipToInt (ofList s) = some n ∧
        wholeNumber (trim (cut '/' rest).1) = some b ∧ 0 ≤ b ∧ b ≤ 32 ∧ r = .block n b.toNat := by
  unfold parseRange
  rw [if_neg hdash, htext, if_pos (by simp), firstTwo_append hs]
  dsimp only
  rw [toList_ofList]
  cases ha : ipToInt (ofList s) with
  | none => simp
  | some n =>
    cases hb : wholeNumber (trim (cut '/' rest).1) with
    | none => simp
    | some b =>
      dsimp only
      split_ifs with h
      · constructor
        · intro heq
          exact ⟨n, b, rfl, rfl, h.1, h.2, (some.inj heq).symm⟩
        · rintro ⟨n', b', hn, hb', -, -, rfl⟩
          rw [some.inj hn, some.inj hb']
      · simp only [false_iff]
        rintro ⟨n', b', -, hb', h0, hle, -⟩
        rw [some.inj hb'] at h
        exact h ⟨h0, hle⟩

theorem parse_single (hdash : '-' ∉ trim value.toList) (hslash : '/' ∉ trim value.toList) :
    parseRange value = some r ↔ ∃ n, ipToInt (ofList (trim value.toList)) = some n ∧ r = .single n := by
  unfold parseRange
  rw [if_neg hdash, if_neg hslash, map_eq_some_iff]
  simp only [eq_comm]

theorem Denotes.parse (h : Denotes (trim value.toList) S) : ∃ r, parseRange value = some r ∧ r.set = S := by
  generalize htext : trim value.toList = text at h
  cases h with
  | address hs =>
    rename_i n
    have hip : ipToInt (ofList text) = some n := ipToInt_iff.mpr (by rwa [toList_ofList])
    refine ⟨.single n, ?_, Set.Icc_self n⟩
    exact (parse_single (htext ▸ hs.no_dash) (htext ▸ hs.no_slash)).mpr ⟨n, by rwa [htext], rfl⟩
  | between hs ht hle =>
    rename_i s t m n
    refine ⟨⟨m, n, hle⟩, (parse_dash htext hs.no_dash).mpr ⟨?_, ?_⟩, rfl⟩
    · exact ipToInt_iff.mpr (by rwa [toList_ofList])
    · rw [cut_of_not_mem ht.no_dash]
      exact ipToInt_iff.mpr (by rwa [toList_ofList])
  | block hs hdigits hle =>
    rename_i s bits n
    have hdash : '-' ∉ trim value.toList := by
      rw [htext]
      simp [hs.no_dash, no_dash_of_digits hdigits (show ('-' : Char).isDigit = false by decide)]
    refine ⟨.block n (decimal bits), ?_, set_block n (decimal bits)⟩
    refine (parse_slash htext hs.no_slash hdash).mpr ⟨n, decimal bits, ?_, ?_, by omega, by omega, by simp⟩
    · exact ipToInt_iff.mpr (by rwa [toList_ofList])
    · rw [cut_of_not_mem (no_dash_of_digits hdigits (by decide)), trim_digits hdigits]
      exact (wholeNumber_bits hdigits (by omega) (by omega)).mpr (by simp)

/-- Where its parts are read, nothing of a text is left out, and a prefix is decimal digits. -/
structure ReadWhole (text : List Char) : Prop where
  dash : ∀ a b rest, text = a ++ '-' :: (b ++ '-' :: rest) → '-' ∉ a → '-' ∉ b →
    ∀ m n, ipToInt (ofList a) = some m → ipToInt (ofList b) = some n → n < m
  slash : ∀ ip rest, '-' ∉ text → text = ip ++ '/' :: rest → '/' ∉ ip → ∀ n b, ipToInt (ofList ip) = some n →
    wholeNumber (trim (cut '/' rest).1) = some b → 0 ≤ b → b ≤ 32 → isDigits rest = true

def MeansItsText (value : String) : Prop :=
  ∀ S, (∃ r, parseRange value = some r ∧ r.set = S) ↔ Denotes (trim value.toList) S

theorem Denotes.one_dash (h : Denotes text S) {a b : List Char} (ha : '-' ∉ a)
    (htext : text = a ++ '-' :: (b ++ '-' :: rest)) : False := by
  cases h with
  | address hs => exact hs.no_dash (by simp [htext])
  | between hs ht hle =>
    obtain ⟨-, hrest⟩ := append_sep_inj hs.no_dash ha htext
    exact ht.no_dash (by simp [hrest])
  | block hs hdigits hle =>
    have hmem : '-' ∈ a ++ '-' :: (b ++ '-' :: rest) := by simp
    rw [← htext, mem_append, mem_cons] at hmem
    rcases hmem with hmem | hmem | hmem
    · exact hs.no_dash hmem
    · exact absurd hmem (by decide)
    · exact no_dash_of_digits hdigits (by decide) hmem

theorem Denotes.digits (h : Denotes text S) (hdash : '-' ∉ text) {ip : List Char} (hip : '/' ∉ ip)
    (htext : text = ip ++ '/' :: rest) : isDigits rest = true := by
  cases h with
  | address hs => exact absurd (by simp [htext]) hs.no_slash
  | between hs ht hle => exact absurd (by simp) hdash
  | block hs hdigits hle =>
    obtain ⟨-, rfl⟩ := append_sep_inj hs.no_slash hip htext
    exact hdigits

theorem address_of_ipToInt (h : ipToInt (ofList s) = some n) : Address s n := by
  have hs := ipToInt_iff.mp h
  rwa [toList_ofList] at hs

theorem ReadWhole.denotes (h : ReadWhole (trim value.toList)) (hr : parseRange value = some r) :
    Denotes (trim value.toList) r.set := by
  rcases cut_cases '-' (trim value.toList) with ⟨hdash, -⟩ | ⟨a, rest, ha, htext, -⟩
  · rcases cut_cases '/' (trim value.toList) with ⟨hslash, -⟩ | ⟨ip, rest, hip, htext, -⟩
    · obtain ⟨n, hn, rfl⟩ := (parse_single hdash hslash).mp hr
      have hset : (IpRange.single n).set = {n} := Set.Icc_self n
      rw [hset]
      exact .address (address_of_ipToInt hn)
    · obtain ⟨n, b, hn, hb, h0, hle, rfl⟩ := (parse_slash htext hip hdash).mp hr
      have hdigits := h.slash ip rest hdash htext hip n b hn hb h0 hle
      rw [cut_of_not_mem (no_dash_of_digits hdigits (by decide)), trim_digits hdigits] at hb
      have hbits := (wholeNumber_bits hdigits h0 hle).mp hb
      rw [htext, ← hbits, set_block]
      exact .block (address_of_ipToInt hn) hdigits (by omega)
  · obtain ⟨hstart, hstop⟩ := (parse_dash htext ha).mp hr
    rcases cut_cases '-' rest with ⟨-, hcut⟩ | ⟨b, more, hb, rfl, hcut⟩
    · rw [hcut] at hstop
      rw [htext]
      exact .between (address_of_ipToInt hstart) (address_of_ipToInt hstop) r.le
    · rw [hcut] at hstop
      have hlt := h.dash a b more htext ha hb _ _ hstart hstop
      exact absurd r.le (by omega)

theorem meansItsText_iff (value : String) : MeansItsText value ↔ ReadWhole (trim value.toList) := by
  constructor
  · intro h
    constructor
    · intro a b rest htext ha hb m n hm hn
      by_contra hle
      have hparse : parseRange value = some ⟨m, n, by omega⟩ := by
        refine (parse_dash htext ha).mpr ⟨hm, ?_⟩
        rwa [cut_append hb]
      exact ((h _).mp ⟨_, hparse, rfl⟩).one_dash ha htext
    · intro ip rest hdash htext hip n b hn hb h0 hle
      have hparse : parseRange value = some (.block n b.toNat) :=
        (parse_slash htext hip hdash).mpr ⟨n, b, hn, hb, h0, hle, rfl⟩
      exact ((h _).mp ⟨_, hparse, rfl⟩).digits hdash hip htext
  · intro h S
    constructor
    · rintro ⟨r, hr, rfl⟩
      exact h.denotes hr
    · exact Denotes.parse

/-! ### The UI's check -/

theorem isOctet_of_rmatch (h : octetPattern.rmatch s = true) : IsOctet s := by
  have hsome : (octet s).isSome = true := by
    unfold octetPattern at h
    rw [add_rmatch_iff, add_rmatch_iff] at h
    rcases h with (h | h) | h
    · obtain ⟨t, rfl, ht⟩ := rmatch_char_mul.mp h
      obtain ⟨u, rfl, hu⟩ := rmatch_char_mul.mp ht
      obtain ⟨ch, hch, rfl⟩ := rmatch_oneOf.mp hu
      have hall : ("012345".toList.all fun ch => (octet ['2', '5', ch]).isSome) = true := by decide
      exact all_eq_true.mp hall ch hch
    · obtain ⟨t, rfl, ht⟩ := rmatch_char_mul.mp h
      obtain ⟨u, v, rfl, hu, hv⟩ := (mul_rmatch_iff _ _ _).mp ht
      obtain ⟨ch, hch, rfl⟩ := rmatch_oneOf.mp hu
      obtain ⟨d, hd, rfl⟩ := rmatch_oneOf.mp hv
      have hall : ("01234".toList.all fun ch => "0123456789".toList.all fun d =>
        (octet ['2', ch, d]).isSome) = true := by
        decide
      exact all_eq_true.mp (all_eq_true.mp hall ch hch) d hd
    · -- `1`, a digit or both may be missing before the last digit.
      obtain ⟨t, u, rfl, ht, hu⟩ := (mul_rmatch_iff _ _ _).mp h
      obtain ⟨v, w, rfl, hv, hw⟩ := (mul_rmatch_iff _ _ _).mp hu
      obtain ⟨d, hd, rfl⟩ := rmatch_oneOf.mp hw
      rcases rmatch_optionally.mp ht with ht | rfl <;> rcases rmatch_optionally.mp hv with hv | rfl
      · rw [(char_rmatch_iff '1' t).mp ht]
        obtain ⟨e, he, rfl⟩ := rmatch_oneOf.mp hv
        have hall : ("0123456789".toList.all fun e =>
            "0123456789".toList.all fun d => (octet ['1', e, d]).isSome) = true := by decide
        exact all_eq_true.mp (all_eq_true.mp hall e he) d hd
      · rw [(char_rmatch_iff '1' t).mp ht]
        have hall : ("0123456789".toList.all fun d => (octet ['1', d]).isSome) = true := by decide
        exact all_eq_true.mp hall d hd
      · obtain ⟨e, he, rfl⟩ := rmatch_oneOf.mp hv
        have hall : ("0123456789".toList.all fun e =>
            "0123456789".toList.all fun d => (octet [e, d]).isSome) = true := by decide
        exact all_eq_true.mp (all_eq_true.mp hall e he) d hd
      · have hall : ("0123456789".toList.all fun d => (octet [d]).isSome) = true := by decide
        exact all_eq_true.mp hall d hd
  obtain ⟨k, hk⟩ := isSome_iff_exists.mp hsome
  exact (octet_eq_some.mp hk).1

theorem dotted_of_rmatch (h : ipv4.rmatch s = true) : Dotted s (toInt s) := by
  unfold ipv4 at h
  obtain ⟨a, t, rfl, ha, ht⟩ := (mul_rmatch_iff _ _ _).mp h
  obtain ⟨u, rfl, hu⟩ := rmatch_char_mul.mp ht
  obtain ⟨b, v, rfl, hb, hv⟩ := (mul_rmatch_iff _ _ _).mp hu
  obtain ⟨w, rfl, hw⟩ := rmatch_char_mul.mp hv
  obtain ⟨c, x, rfl, hc, hx⟩ := (mul_rmatch_iff _ _ _).mp hw
  obtain ⟨d, rfl, hd⟩ := rmatch_char_mul.mp hx
  have ha := isOctet_of_rmatch ha
  have hb := isOctet_of_rmatch hb
  have hc := isOctet_of_rmatch hc
  have hd := isOctet_of_rmatch hd
  have hvalue : toInt (a ++ '.' :: (b ++ '.' :: (c ++ '.' :: d))) =
      ((decimal a * 256 + decimal b) * 256 + decimal c) * 256 + decimal d := by
    unfold toInt
    rw [Dotted.splitOn ha hb hc hd]
    simp
  rw [hvalue]
  exact .mk ha hb hc hd

theorem prefix_of_rmatch (h : prefixLength.rmatch s = true) : isDigits s = true ∧ decimal s ≤ 32 := by
  suffices hbool : (isDigits s && decide (decimal s ≤ 32)) = true by simpa using hbool
  unfold prefixLength at h
  rw [add_rmatch_iff] at h
  rcases h with h | h
  · obtain ⟨t, rfl, ht⟩ := rmatch_char_mul.mp h
    obtain ⟨ch, hch, rfl⟩ := rmatch_oneOf.mp ht
    have hall : ("012".toList.all fun ch => isDigits ['3', ch] && decide (decimal ['3', ch] ≤ 32)) =
      true := by decide
    exact all_eq_true.mp hall ch hch
  · obtain ⟨t, u, rfl, ht, hu⟩ := (mul_rmatch_iff _ _ _).mp h
    obtain ⟨d, hd, rfl⟩ := rmatch_oneOf.mp hu
    rcases rmatch_optionally.mp ht with ht | rfl
    · obtain ⟨ch, hch, rfl⟩ := rmatch_oneOf.mp ht
      have hall : ("12".toList.all fun ch =>
          "0123456789".toList.all fun d => isDigits [ch, d] && decide (decimal [ch, d] ≤ 32)) =
            true := by decide
      exact all_eq_true.mp (all_eq_true.mp hall ch hch) d hd
    · have hall : ("0123456789".toList.all fun d => isDigits [d] && decide (decimal [d] ≤ 32)) =
        true := by decide
      exact all_eq_true.mp hall d hd

theorem entry_cases {e : List Char} (h : entryPattern.rmatch e = true) :
    ipv4.rmatch e = true ∨
      (∃ a b, e = a ++ '-' :: b ∧ ipv4.rmatch a = true ∧ ipv4.rmatch b = true) ∨
      ∃ a b, e = a ++ '/' :: b ∧ ipv4.rmatch a = true ∧ prefixLength.rmatch b = true := by
  obtain ⟨a, t, rfl, ha, ht⟩ := (mul_rmatch_iff _ _ _).mp h
  rcases rmatch_optionally.mp ht with ht | rfl
  · rw [add_rmatch_iff] at ht
    rcases ht with ht | ht
    · obtain ⟨b, rfl, hb⟩ := rmatch_char_mul.mp ht
      exact .inr (.inl ⟨a, b, rfl, ha, hb⟩)
    · obtain ⟨b, rfl, hb⟩ := rmatch_char_mul.mp ht
      exact .inr (.inr ⟨a, b, rfl, ha, hb⟩)
  · exact .inl (by rwa [append_nil])

theorem denotes_of_accepted {e : List Char} (h : entryError e = none) :
    (∃ S, Denotes e S) ∧ ∀ ch ∈ e, isSpace ch = false := by
  unfold entryError at h
  have hmatch : entryPattern.rmatch e = true := by
    by_contra hno
    rw [Bool.eq_false_of_not_eq_true hno] at h
    cases h
  rw [if_neg (by simp [hmatch])] at h
  rcases entry_cases hmatch with hip | ⟨a, b, rfl, ha, hb⟩ | ⟨a, b, rfl, ha, hb⟩
  · have hdotted := dotted_of_rmatch hip
    exact ⟨⟨_, .address hdotted.address⟩, fun ch => hdotted.isSpace⟩
  · have ha := dotted_of_rmatch ha
    have hb := dotted_of_rmatch hb
    have hsplit : (a ++ '-' :: b).splitOn '-' = [a, b] := by
      rw [splitOn_append_cons_self_of_not_mem ha.address.no_dash, splitOn_eq_singleton hb.address.no_dash]
    rw [if_pos (by simp), hsplit] at h
    have hle : toInt a ≤ toInt b := by
      by_contra hlt
      exact absurd h (by simp [Nat.lt_of_not_le hlt])
    refine ⟨⟨_, .between ha.address hb.address hle⟩, ?_⟩
    intro ch hch
    rcases mem_append.mp hch with hch | hch
    · exact ha.isSpace hch
    · rcases mem_cons.mp hch with rfl | hch
      · decide
      · exact hb.isSpace hch
  · have ha := dotted_of_rmatch ha
    obtain ⟨hdigits, hle⟩ := prefix_of_rmatch hb
    refine ⟨⟨_, .block ha.address hdigits hle⟩, ?_⟩
    intro ch hch
    rcases mem_append.mp hch with hch | hch
    · exact ha.isSpace hch
    · rcases mem_cons.mp hch with rfl | hch
      · decide
      · exact isSpace_digit ((isDigits_iff.mp hdigits).2 ch hch)

/-- `parseRange` reads a text as what it stands for, and no other text, exactly where it reads the
text whole; what the UI accepts it reads as what it stands for. -/
theorem range_means_its_text (value : String) :
    (MeansItsText value ↔ ReadWhole (trim value.toList)) ∧
      (metallbAddressesError value = none → ∀ e ∈ entriesOf value,
        ∃ r, parseRange (ofList e) = some r ∧ Denotes e r.set) := by
  refine ⟨meansItsText_iff value, ?_⟩
  intro hvalue e he
  unfold metallbAddressesError at hvalue
  split_ifs at hvalue with hempty
  obtain ⟨⟨S, hS⟩, hspace⟩ := denotes_of_accepted (List.findSome?_eq_none_iff.mp hvalue e he)
  have htrim : trim (ofList e).toList = e := by
    rw [toList_ofList]
    exact trim_eq hspace
  have hread : Denotes (trim (ofList e).toList) S := by rwa [htrim]
  obtain ⟨r, hr, rfl⟩ := hread.parse
  exact ⟨r, hr, hS⟩

/-- A third address is left out: the text stands for nothing, and is read as a range. -/
theorem third_address_is_left_out : ¬ MeansItsText "10.0.0.1-10.0.0.2-10.0.0.99" := by
  rw [meansItsText_iff]
  intro h
  have hlt := h.dash "10.0.0.1".toList "10.0.0.2".toList "10.0.0.99".toList (by decide) (by decide)
    (by decide)
    (10 * 2 ^ 24 + 1) (10 * 2 ^ 24 + 2) (by decide) (by decide)
  omega

end IncusCloud.Agent
