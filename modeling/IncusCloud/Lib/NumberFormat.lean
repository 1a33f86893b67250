import IncusCloud.Lib.Number
import Mathlib.Tactic.IntervalCases

/-!
# `parseInt` and the text of a whole number

`parseInt(text)` reads the whole number a text begins with, and rounds it to a double. A whole
double is printed as the decimal with the fewest digits that is read as it, with an exponent from
`10 ^ 21` on. A text that is printed again as it stands is then a number in plain decimal, or `NaN`
(`text_parseInt_append`); below `2 ^ 53` each plain decimal is (`printed_of_lt`).
-/

namespace IncusCloud.Lib

open List Option
open Nat (toDigits log2)

variable {ch : Char} {t u : List Char} {n x : ℕ}

/-- White space, for `trim` and `parseInt`. -/
def isSpace (ch : Char) : Bool :=
  let n := ch.toNat
  (9 ≤ n && n ≤ 13) || (0x2000 ≤ n && n ≤ 0x200A) ||
    [0x20, 0xA0, 0x1680, 0x2028, 0x2029, 0x202F, 0x205F, 0x3000, 0xFEFF].contains n

namespace Number

/-- The base that the digits after a sign are read in, and the rest. -/
def readRadix : List Char → ℕ × List Char
  | '0' :: 'x' :: s => (16, s)
  | '0' :: 'X' :: s => (16, s)
  | s => (10, s)

def parseInt (s : List Char) : Number :=
  let sign := readSign (s.dropWhile isSpace)
  let radix := readRadix sign.2
  let digits := radix.2.takeWhile fun ch => (digitValue radix.1 ch).isSome
  if digits = [] then nan
  else
    let n : ℕ := digits.foldl (fun n ch => radix.1 * n + (digitValue radix.1 ch).getD 0) 0
    ofInt (if sign.1 then -n else n)

/-- The multiple of `10 ^ m` next to the double `x` that is read as it, if there is one: the
nearest, and of two that are as near the even one. -/
def shortestAt (x m : ℕ) : Option ℕ :=
  let low := x / 10 ^ m * 10 ^ m
  let high := low + 10 ^ m
  if roundNat low = x then
    if roundNat high = x ∧ (high - x < x - low ∨ (high - x = x - low ∧ x / 10 ^ m % 2 = 1)) then some high
    else some low
  else if roundNat high = x then some high
  else none

/-- The decimal with the fewest digits that is read as the double `x`. -/
def shortest (x : ℕ) : ℕ :=
  ((List.range ((toDigits 10 x).length + 1)).reverse.findSome? (shortestAt x)).getD x

def natText (x : ℕ) : List Char :=
  let digits := toDigits 10 (shortest x)
  if digits.length ≤ 21 then digits
  else
    let fraction := (digits.tail.reverse.dropWhile (· = '0')).reverse
    digits.headD '0' :: ((if fraction = [] then [] else '.' :: fraction) ++
      ('e' :: '+' :: toDigits 10 (digits.length - 1)))

def text : Number → List Char
  | int i => if i < 0 then '-' :: natText i.natAbs else natText i.natAbs
  | infinity negative => if negative then "-Infinity".toList else "Infinity".toList
  | nan => "NaN".toList

def truthy : Number → Bool
  | int i => i ≠ 0
  | infinity _ => true
  | nan => false

/-! ### Reading -/

theorem isDigit_toNat (h : ch.isDigit = true) : 48 ≤ ch.toNat ∧ ch.toNat ≤ 57 := by
  simp only [Char.isDigit, Bool.and_eq_true, decide_eq_true_eq] at h
  exact ⟨h.1, h.2⟩

theorem isSpace_of_isDigit (h : ch.isDigit = true) : isSpace ch = false := by
  obtain ⟨hlow, hhigh⟩ := isDigit_toNat h
  simp only [isSpace, contains_eq_mem, mem_cons, not_mem_nil, or_false,
    Bool.or_eq_false_iff, Bool.and_eq_false_iff, decide_eq_false_iff_not]
  omega

theorem digitValue_ten (ch : Char) :
    digitValue 10 ch = if ch.isDigit then some (ch.toNat - '0'.toNat) else none := by
  unfold digitValue
  dsimp only
  by_cases h : ch.isDigit = true
  · obtain ⟨hlow, hhigh⟩ := isDigit_toNat h
    have hlt : ch.toNat - '0'.toNat < 10 := by
      have hzero : '0'.toNat = 48 := rfl
      omega
    rw [if_pos h, if_pos h, filter_some, if_pos (decide_eq_true hlt)]
  · rw [if_neg h, if_neg h]
    split_ifs
    · rw [filter_some, if_neg]
      have hlow : 'a'.toNat ≤ ch.toNat := by omega
      simp
    · rw [filter_some, if_neg]
      simp
    · rfl

structure Reads (digits rest : List Char) : Prop where
  ne_nil : digits ≠ []
  isDigit : ∀ ch ∈ digits, ch.isDigit = true
  stops : ∀ ch ∈ rest.head?, ch.isDigit = false
  notHex : digits = ['0'] → ∀ ch ∈ rest.head?, ch ≠ 'x' ∧ ch ≠ 'X'

theorem Reads.radix (h : Reads t u) : readRadix (t ++ u) = (10, t ++ u) := by
  -- After a zero comes another digit, or what begins no other base.
  have hsecond : ∀ ch s, t ++ u = '0' :: ch :: s → ch ≠ 'x' ∧ ch ≠ 'X' := by
    intro ch s heq
    cases t with
    | nil => exact absurd rfl h.ne_nil
    | cons c t =>
      obtain ⟨rfl, hrest⟩ := List.cons.inj heq
      cases t with
      | nil =>
        have hu : u = ch :: s := hrest
        refine h.notHex rfl ch ?_
        rw [hu]
        rfl
      | cons d t =>
        obtain ⟨rfl, -⟩ := List.cons.inj hrest
        have hdigit := h.isDigit d (by simp)
        constructor
        · rintro rfl
          exact absurd hdigit (by decide)
        · rintro rfl
          exact absurd hdigit (by decide)
  unfold readRadix
  split
  · rename_i s heq
    exact absurd rfl (hsecond _ _ heq).1
  · rename_i s heq
    exact absurd rfl (hsecond _ _ heq).2
  · rfl

theorem Reads.takeWhile (h : Reads t u) :
    (t ++ u).takeWhile (fun ch => (digitValue 10 ch).isSome) = t := by
  have hdigit : ∀ ch ∈ t, (digitValue 10 ch).isSome = true := by
    intro ch hch
    rw [digitValue_ten, if_pos (h.isDigit ch hch)]
    rfl
  have hstop : u.takeWhile (fun ch => (digitValue 10 ch).isSome) = [] := by
    cases u with
    | nil => rfl
    | cons ch u =>
      have hch := h.stops ch rfl
      rw [takeWhile_cons_of_neg]
      rw [digitValue_ten, hch]
      exact Bool.false_ne_true
  rw [takeWhile_append_of_pos hdigit, hstop, append_nil]

theorem foldl_digitValue (h : ∀ ch ∈ t, ch.isDigit = true) (n : ℕ) :
    t.foldl (fun n ch => 10 * n + (digitValue 10 ch).getD 0) n =
      t.foldl (fun n ch => 10 * n + (ch.toNat - '0'.toNat)) n := by
  induction t generalizing n with
  | nil => rfl
  | cons ch t ih =>
    have hch := h ch mem_cons_self
    rw [foldl_cons, foldl_cons, ih (fun c hc => h c (mem_cons_of_mem _ hc)), digitValue_ten,
      if_pos hch]
    rfl

theorem Reads.value (h : Reads t u) : parseInt (t ++ u) = ofDigits t := by
  obtain ⟨ch, s, hcons⟩ := exists_cons_of_ne_nil h.ne_nil
  have hch : ch.isDigit = true := h.isDigit ch (by rw [hcons]; exact mem_cons_self)
  have hdrop : (t ++ u).dropWhile isSpace = t ++ u := by
    rw [hcons, cons_append, dropWhile_cons_of_neg]
    rw [isSpace_of_isDigit hch]
    exact Bool.false_ne_true
  have hsign : readSign (t ++ u) = (false, t ++ u) := by
    rw [hcons, cons_append]
    unfold readSign
    split
    · rename_i heq
      obtain ⟨rfl, -⟩ := List.cons.inj heq
      exact absurd hch (by decide)
    · rename_i heq
      obtain ⟨rfl, -⟩ := List.cons.inj heq
      exact absurd hch (by decide)
    · rfl
  unfold parseInt
  simp only [hdrop, hsign, h.radix, h.takeWhile, if_neg h.ne_nil]
  rw [foldl_digitValue h.isDigit]
  rfl

theorem Reads.value_neg (h : Reads t u) :
    parseInt ('-' :: (t ++ u)) = ofInt (-(decimal t : ℤ)) := by
  have hdrop : ('-' :: (t ++ u)).dropWhile isSpace = '-' :: (t ++ u) :=
    dropWhile_cons_of_neg (by decide)
  have hsign : readSign ('-' :: (t ++ u)) = (true, t ++ u) := rfl
  unfold parseInt
  simp only [hdrop, hsign, h.radix, h.takeWhile, if_neg h.ne_nil]
  rw [foldl_digitValue h.isDigit]
  rfl

/-! ### Printing -/

theorem roundNat_ge {y : ℕ} (h : 2 ^ 53 ≤ y) : 2 ^ 53 ≤ roundNat y := by
  have hpos : y ≠ 0 := by omega
  have hlog : 53 ≤ log2 y := (Nat.le_log2 hpos).mpr h
  unfold roundNat
  dsimp only
  set e := log2 y - 52 with he
  have hq : 2 ^ 52 ≤ y / 2 ^ e := by
    rw [Nat.le_div_iff_mul_le (Nat.two_pow_pos e), ← pow_add]
    have hexp : 52 + e = log2 y := by omega
    rw [hexp]
    exact Nat.log2_self_le hpos
  have he1 : 2 ≤ 2 ^ e := by
    calc 2 = 2 ^ 1 := rfl
      _ ≤ 2 ^ e := Nat.pow_le_pow_right (by decide) (by omega)
  have hmul : 2 ^ 52 * 2 ≤ y / 2 ^ e * 2 ^ e := Nat.mul_le_mul hq he1
  split_ifs
  · calc 2 ^ 53 = 2 ^ 52 * 2 := rfl
      _ ≤ y / 2 ^ e * 2 ^ e := hmul
      _ ≤ (y / 2 ^ e + 1) * 2 ^ e := Nat.mul_le_mul_right _ (Nat.le_succ _)
  · calc 2 ^ 53 = 2 ^ 52 * 2 := rfl
      _ ≤ y / 2 ^ e * 2 ^ e := hmul

theorem roundNat_of_shortestAt {m y : ℕ} (h : shortestAt x m = some y) : roundNat y = x := by
  unfold shortestAt at h
  dsimp only at h
  split_ifs at h with hlow hhigh hhigh
  · rw [← some.inj h]
    exact hhigh.1
  · rw [← some.inj h]
    exact hlow
  · rw [← some.inj h]
    exact hhigh

theorem shortest_cases (x : ℕ) : shortest x = x ∨ roundNat (shortest x) = x := by
  unfold shortest
  cases hfind : (List.range ((toDigits 10 x).length + 1)).reverse.findSome? (shortestAt x) with
  | none => exact .inl rfl
  | some y =>
    obtain ⟨m, -, hm⟩ := exists_of_findSome?_eq_some hfind
    exact .inr (roundNat_of_shortestAt hm)

theorem shortest_of_lt (h : x < 2 ^ 53) : shortest x = x := by
  rcases shortest_cases x with heq | hround
  · exact heq
  · by_cases hlt : shortest x < 2 ^ 53
    · rwa [roundNat_of_lt hlt] at hround
    · have hge := roundNat_ge (Nat.not_lt.mp hlt)
      omega

theorem shortest_pos (h : 0 < x) : 0 < shortest x := by
  rcases shortest_cases x with heq | hround
  · omega
  · by_contra hzero
    have hz : shortest x = 0 := by omega
    rw [hz, roundNat_of_lt (by decide)] at hround
    omega

theorem natText_cases (x : ℕ) :
    (natText x ≠ [] ∧ ∀ ch ∈ natText x, ch.isDigit = true) ∨
      ∃ d c s, natText x = d :: c :: s ∧ d.isDigit = true ∧ (c = '.' ∨ c = 'e') := by
  unfold natText
  dsimp only
  split_ifs with hlen hfraction
  · exact .inl ⟨Nat.toDigits_ne_nil, fun ch hch => isDigit_toDigits hch⟩
  all_goals
    right
    obtain ⟨d, s, hcons⟩ := exists_cons_of_ne_nil (Nat.toDigits_ne_nil (b := 10) (n := shortest x))
    have hd : d.isDigit = true := isDigit_toDigits (n := shortest x) (by rw [hcons]; exact mem_cons_self)
    rw [hcons]
  · exact ⟨d, 'e', _, rfl, hd, .inr rfl⟩
  · exact ⟨d, '.', _, rfl, hd, .inl rfl⟩

theorem natText_ne_zero (h : 0 < x) : natText x ≠ ['0'] := by
  intro hzero
  unfold natText at hzero
  dsimp only at hzero
  split_ifs at hzero
  · have hvalue := congrArg decimal hzero
    rw [decimal_toDigits] at hvalue
    have hpos := shortest_pos h
    have hdec : decimal ['0'] = 0 := rfl
    omega
  · simp at hzero
  · simp at hzero

structure Printed (t : List Char) : Prop where
  ne_nil : t ≠ []
  isDigit : ∀ ch ∈ t, ch.isDigit = true
  text_eq : text (ofDigits t) = t

theorem text_ofInt_nat (h : n < 2 ^ 53) : text (ofInt n) = toDigits 10 n := by
  rw [ofInt_of_lt (by simpa using h)]
  show (if (n : ℤ) < 0 then '-' :: natText (n : ℤ).natAbs else natText (n : ℤ).natAbs) = _
  rw [if_neg (by omega), Int.natAbs_natCast]
  unfold natText
  rw [shortest_of_lt h]
  refine if_pos ((Nat.length_toDigits_le_iff (by decide) (by decide)).mpr ?_)
  exact Nat.lt_trans h (by decide)

theorem printed_of_lt (h : n < 2 ^ 53) : Printed (toDigits 10 n) := by
  refine ⟨Nat.toDigits_ne_nil, fun ch hch => isDigit_toDigits hch, ?_⟩
  unfold ofDigits
  rw [decimal_toDigits]
  exact text_ofInt_nat h

/-! ### Texts that are printed again -/

/-- A plain decimal, with a sign where it is negative. -/
def PrintedInt (w : List Char) : Prop := Printed w ∨ ∃ t, w = '-' :: t ∧ Printed t ∧ t ≠ ['0']

theorem roundNat_pos (h : 0 < n) : 0 < roundNat n := by
  by_cases hlt : n < 2 ^ 53
  · rwa [roundNat_of_lt hlt]
  · have hge := roundNat_ge (Nat.not_lt.mp hlt)
    omega

theorem text_ofInt_natCast (n : ℕ) :
    text (ofInt n) = if 2 ^ 1024 ≤ roundNat n then "Infinity".toList else natText (roundNat n) := by
  unfold ofInt
  simp only [Int.natAbs_natCast]
  have hsign : ¬ (n : ℤ) < 0 := by omega
  rw [if_neg hsign, decide_eq_false hsign]
  split_ifs
  · rfl
  · show (if (roundNat n : ℤ) < 0 then '-' :: natText (roundNat n : ℤ).natAbs else natText (roundNat n : ℤ).natAbs) = _
    rw [if_neg (by omega), Int.natAbs_natCast]

theorem text_ofInt_neg (h : 0 < n) : text (ofInt (-(n : ℤ))) = '-' :: text (ofInt n) := by
  rw [text_ofInt_natCast]
  unfold ofInt
  simp only [Int.natAbs_neg, Int.natAbs_natCast]
  have hsign : -(n : ℤ) < 0 := by omega
  have hround := roundNat_pos h
  rw [if_pos hsign, decide_eq_true hsign]
  split_ifs
  · rfl
  · show (if -(roundNat n : ℤ) < 0 then '-' :: natText (-(roundNat n : ℤ)).natAbs
        else natText (-(roundNat n : ℤ)).natAbs) = _
    rw [if_pos (by omega), Int.natAbs_neg, Int.natAbs_natCast]

theorem text_digit {d : Char} (h : d.isDigit = true) : text (ofDigits [d]) = [d] := by
  obtain ⟨hlow, hhigh⟩ := isDigit_toNat h
  have hchar : d = Nat.digitChar (d.toNat - 48) := by
    have heq : d = Char.ofNat d.toNat := (Char.ofNat_toNat d).symm
    generalize d.toNat = n at *
    subst heq
    interval_cases n <;> rfl
  have hdigits : toDigits 10 (d.toNat - 48) = [d] := by
    rw [Nat.toDigits_of_lt_base (by omega), ← hchar]
  rw [← hdigits]
  exact (printed_of_lt (by omega)).text_eq

theorem Printed.decimal_pos (h : Printed t) (hne : t ≠ ['0']) : 0 < decimal t := by
  by_contra hzero
  have hz : decimal t = 0 := by omega
  have htext := h.text_eq
  rw [ofDigits, hz] at htext
  exact hne (htext.symm.trans (text_ofInt_nat (by decide)))

theorem parseInt_of_not_digit (hspace : isSpace ch = false) (hsign : ch ≠ '-' ∧ ch ≠ '+')
    (hdigit : ch.isDigit = false) (s : List Char) :
    parseInt (ch :: s) = nan ∧ parseInt ('-' :: ch :: s) = nan := by
  have hradix : readRadix (ch :: s) = (10, ch :: s) := by
    unfold readRadix
    split
    · rename_i heq
      obtain ⟨rfl, -⟩ := List.cons.inj heq
      exact absurd hdigit (by decide)
    · rename_i heq
      obtain ⟨rfl, -⟩ := List.cons.inj heq
      exact absurd hdigit (by decide)
    · rfl
  have htake : (ch :: s).takeWhile (fun ch => (digitValue 10 ch).isSome) = [] := by
    rw [takeWhile_cons_of_neg]
    rw [digitValue_ten, hdigit]
    exact Bool.false_ne_true
  have hread : readSign (ch :: s) = (false, ch :: s) := by
    unfold readSign
    split
    · rename_i heq
      exact absurd (List.cons.inj heq).1 hsign.1
    · rename_i heq
      exact absurd (List.cons.inj heq).1 hsign.2
    · rfl
  constructor
  · have hdrop : (ch :: s).dropWhile isSpace = ch :: s := by
      rw [dropWhile_cons_of_neg]
      rw [hspace]
      exact Bool.false_ne_true
    unfold parseInt
    simp only [hdrop, hread, hradix, htake]
    rfl
  · have hdrop : ('-' :: ch :: s).dropWhile isSpace = '-' :: ch :: s := dropWhile_cons_of_neg (by decide)
    have hminus : readSign ('-' :: ch :: s) = (true, ch :: s) := rfl
    unfold parseInt
    simp only [hdrop, hminus, hradix, htake]
    rfl

theorem text_parseInt_append {w : List Char} (hstops : ∀ ch ∈ u.head?, ch.isDigit = false)
    (hhex : ∀ ch ∈ u.head?, ch ≠ 'x' ∧ ch ≠ 'X') :
    text (parseInt (w ++ u)) = w ↔ w = "NaN".toList ∨ PrintedInt w := by
  have hreads : ∀ t, t ≠ [] → (∀ ch ∈ t, ch.isDigit = true) → Reads t u :=
    fun t hne hdigit => ⟨hne, hdigit, hstops, fun _ => hhex⟩
  -- A point or an exponent ends what is read.
  have hshort : ∀ d c s, d.isDigit = true → c = '.' ∨ c = 'e' → Reads [d] (c :: (s ++ u)) := by
    intro d c s hd hc
    refine ⟨cons_ne_nil _ _, fun ch hch => mem_singleton.mp hch ▸ hd, ?_, fun _ => ?_⟩
    all_goals
      intro ch hch
      obtain rfl : c = ch := some.inj hch
      rcases hc with rfl | rfl <;> decide
  have hnan : ∀ s, parseInt ('N' :: s) = nan :=
    fun s => (parseInt_of_not_digit (by decide) (by decide) (by decide) s).1
  have hinfinity : ∀ s, parseInt ('I' :: s) = nan ∧ parseInt ('-' :: 'I' :: s) = nan :=
    parseInt_of_not_digit (by decide) (by decide) (by decide)
  constructor
  · intro htext
    cases hN : parseInt (w ++ u) with
    | nan =>
      rw [hN] at htext
      exact .inl htext.symm
    | infinity negative =>
      rw [hN] at htext
      cases negative with
      | false =>
        rw [← htext] at hN
        exact nomatch (hinfinity _).1.symm.trans hN
      | true =>
        rw [← htext] at hN
        exact nomatch (hinfinity _).2.symm.trans hN
    | int i =>
      right
      by_cases hi : i < 0
      · have hw : w = '-' :: natText i.natAbs := by
          rw [← htext, hN]
          exact if_pos hi
        rcases natText_cases i.natAbs with ⟨hne, hdigit⟩ | ⟨d, c, s, hcons, hd, hc⟩
        · have hvalue := (hreads _ hne hdigit).value_neg
          rw [← cons_append, ← hw] at hvalue
          have hpos : 0 < decimal (natText i.natAbs) := by
            by_contra hzero
            have hz : decimal (natText i.natAbs) = 0 := by omega
            rw [hz, hN, ofInt_of_lt (by decide)] at hvalue
            have hzero : i = -((0 : ℕ) : ℤ) := int.inj hvalue
            omega
          refine .inr ⟨natText i.natAbs, hw, ⟨hne, hdigit, ?_⟩, fun hzero => ?_⟩
          · rw [hvalue, text_ofInt_neg hpos, hw] at htext
            exact (List.cons.inj htext).2
          · rw [hzero] at hpos
            exact absurd hpos (by decide)
        · rw [hcons] at hw
          have hvalue := (hshort d c s hd hc).value_neg
          have hlong : (text (ofInt (-(decimal [d] : ℤ)))).length ≤ 2 := by
            rcases Nat.eq_zero_or_pos (decimal [d]) with hzero | hpos
            · rw [hzero, ofInt_of_lt (by decide)]
              decide
            · rw [text_ofInt_neg hpos]
              show (text (ofDigits [d])).length + 1 ≤ 2
              rw [text_digit hd]
              rfl
          have hread : parseInt (w ++ u) = ofInt (-(decimal [d] : ℤ)) := by
            rw [hw]
            exact hvalue
          rw [← hread, htext, hw] at hlong
          simp at hlong
      · have hw : w = natText i.natAbs := by
          rw [← htext, hN]
          exact if_neg hi
        rcases natText_cases i.natAbs with ⟨hne, hdigit⟩ | ⟨d, c, s, hcons, hd, hc⟩
        · have hvalue := (hreads w (hw ▸ hne) (hw ▸ hdigit)).value
          rw [hvalue] at htext
          exact .inl ⟨hw ▸ hne, hw ▸ hdigit, htext⟩
        · rw [hcons] at hw
          have hread : parseInt (w ++ u) = ofDigits [d] := by
            rw [hw]
            exact (hshort d c s hd hc).value
          rw [hread, text_digit hd, hw] at htext
          exact nomatch (List.cons.inj htext).2
  · rintro (rfl | hprinted | ⟨t, rfl, hprinted, hne⟩)
    · have hread : parseInt ("NaN".toList ++ u) = nan := hnan ('a' :: 'N' :: u)
      rw [hread]
      rfl
    · rw [(hreads w hprinted.ne_nil hprinted.isDigit).value]
      exact hprinted.text_eq
    · rw [cons_append, (hreads t hprinted.ne_nil hprinted.isDigit).value_neg,
        text_ofInt_neg (hprinted.decimal_pos hne)]
      exact congrArg _ hprinted.text_eq

theorem text_int (i : ℤ) : text (int i) = if i < 0 then '-' :: natText i.natAbs else natText i.natAbs := rfl

theorem text_ne_nil (n : Number) : text n ≠ [] := by
  cases n with
  | nan => exact cons_ne_nil _ _
  | infinity negative => cases negative <;> exact cons_ne_nil _ _
  | int i =>
    have hnat : natText i.natAbs ≠ [] := by
      rcases natText_cases i.natAbs with ⟨hne, -⟩ | ⟨d, c, s, hcons, -⟩
      · exact hne
      · rw [hcons]
        exact cons_ne_nil _ _
    rw [text_int]
    split_ifs
    · exact cons_ne_nil _ _
    · exact hnat

theorem truthy_iff_text (n : Number) : n.truthy = true ↔ text n ≠ "NaN".toList ∧ text n ≠ ['0'] := by
  cases n with
  | nan => simp [truthy, text]
  | infinity negative => cases negative <;> simp [truthy, text]
  | int i =>
    have hnan : natText i.natAbs ≠ "NaN".toList := by
      intro hnan
      rcases natText_cases i.natAbs with ⟨-, hdigit⟩ | ⟨d, c, s, hcons, hd, -⟩
      · exact absurd (hdigit 'N' (by rw [hnan]; exact mem_cons_self)) (by decide)
      · rw [hcons] at hnan
        rw [(List.cons.inj hnan).1] at hd
        exact absurd hd (by decide)
    have hzero : natText i.natAbs = ['0'] ↔ i = 0 := by
      constructor
      · intro hz
        by_contra hne
        exact natText_ne_zero (Int.natAbs_pos.mpr hne) hz
      · rintro rfl
        decide
    have htruthy : (int i).truthy = decide (i ≠ 0) := rfl
    rw [text_int, htruthy]
    split_ifs with hi
    · have hne : i ≠ 0 := by omega
      simp [hne]
    · rw [decide_eq_true_eq, Ne, ← hzero]
      exact ⟨fun h => ⟨hnan, h⟩, fun h => h.2⟩

end Number

end IncusCloud.Lib
