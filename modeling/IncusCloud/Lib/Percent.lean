import Mathlib.Data.List.Basic

/-!
# Percent-encoding

`encodeURIComponent` and `decodeURIComponent` on characters. A `%` and two hexadecimal digits
stand for one octet, and a run of octets for the characters whose UTF-8 encoding it is. Decoding
first reads the text as plain characters and octets (`octets`), then puts the octets together
(`assemble`); both fail where JavaScript throws a `URIError`.
-/

namespace IncusCloud.Lib

open List Option
open Char (ofNat)

variable {s : List Char} {ch : Char} {b : ℕ}

/-! ### Octets -/

/-- The value of a hexadecimal digit, of either case. -/
def hexVal (ch : Char) : Option ℕ :=
  if '0' ≤ ch ∧ ch ≤ '9' then some (ch.toNat - '0'.toNat)
  else if 'A' ≤ ch ∧ ch ≤ 'F' then some (ch.toNat - 'A'.toNat + 10)
  else if 'a' ≤ ch ∧ ch ≤ 'f' then some (ch.toNat - 'a'.toNat + 10)
  else none

/-- The digits `encodeURIComponent` writes, in upper case. -/
def hexDigit (n : ℕ) : Char := "0123456789ABCDEF".toList.getD n '0'

theorem hexVal_hexDigit : ∀ n < 16, hexVal (hexDigit n) = some n := by decide

/-- An octet as `%XX`. -/
def percent (b : ℕ) : List Char := ['%', hexDigit (b / 16), hexDigit (b % 16)]

def octets : List Char → Option (List (Char ⊕ ℕ))
  | [] => some []
  | ch :: s =>
    if ch = '%' then
      match s with
      | a :: b :: s =>
        (hexVal a).bind fun hi =>
          (hexVal b).bind fun lo => (octets s).map (.inr (16 * hi + lo) :: ·)
      | _ => none
    else (octets s).map (.inl ch :: ·)

theorem octets_escape (a b : Char) (s : List Char) :
    octets ('%' :: a :: b :: s) =
      (hexVal a).bind fun hi => (hexVal b).bind fun lo => (octets s).map (.inr (16 * hi + lo) :: ·) := rfl

theorem octets_short (hs : s.length < 2) : octets ('%' :: s) = none := by
  match s, hs with
  | [], _ => rfl
  | [_], _ => rfl

theorem octets_plain (h : ch ≠ '%') (s : List Char) :
    octets (ch :: s) = (octets s).map (.inl ch :: ·) := by
  rw [octets.eq_def]
  simp only [if_neg h]

theorem octets_percent (hb : b < 256) (s : List Char) :
    octets (percent b ++ s) = (octets s).map (.inr b :: ·) := by
  have hhi := hexVal_hexDigit (b / 16) (by omega)
  have hlo := hexVal_hexDigit (b % 16) (by omega)
  have hval : 16 * (b / 16) + b % 16 = b := by omega
  simp only [percent, cons_append, nil_append, octets_escape, hhi, hlo, bind_some, hval]

theorem octets_induction {P : List Char → Prop} (nil : P []) (escape : ∀ a b s, P s → P ('%' :: a :: b :: s))
    (short : ∀ s : List Char, s.length < 2 → P ('%' :: s)) (plain : ∀ ch s, ch ≠ '%' → P s → P (ch :: s))
    (s : List Char) : P s := by
  induction hn : s.length using Nat.strongRecOn generalizing s with
  | _ n ih =>
  match s with
  | [] => exact nil
  | ch :: s =>
    subst hn
    by_cases hch : ch = '%'
    · subst hch
      match s with
      | a :: b :: s => exact escape a b s (ih s.length (by simp only [length_cons]; omega) s rfl)
      | [] => exact short [] (by decide)
      | [a] => exact short [a] (by simp)
    · exact plain ch s hch (ih s.length (by simp) s rfl)

theorem octets_append (hch : hexVal ch = none) (n r : List Char) :
    octets (n ++ ch :: r) = (octets n).bind fun ts => (octets (ch :: r)).map (ts ++ ·) := by
  induction n using octets_induction with
  | nil =>
    show octets (ch :: r) = (octets (ch :: r)).map ([] ++ ·)
    cases octets (ch :: r) <;> rfl
  | escape a b s ih =>
    simp only [cons_append, octets_escape, ih]
    cases hexVal a <;> cases hexVal b <;> cases octets s <;> cases octets (ch :: r) <;> simp
  | short s hs =>
    -- An escape cut short before `ch` stays one.
    rw [octets_short hs, bind_none]
    match s, hs with
    | [], _ =>
      match r with
      | [] => exact octets_short (by simp)
      | b :: r =>
        rw [cons_append, nil_append, octets_escape, hch]
        rfl
    | [a], _ =>
      simp only [cons_append, nil_append, octets_escape, hch, bind_none]
      cases hexVal a <;> rfl
  | plain a s ha ih =>
    simp only [cons_append, octets_plain ha, ih]
    cases octets s <;> cases octets (ch :: r) <;> simp

/-! ### Characters from octets -/

/-- What the first octet of a sequence says: how many octets follow, the bits it gives, and the
least code point a sequence of that length may encode. -/
def lead (b : ℕ) : Option (ℕ × ℕ × ℕ) :=
  if b < 0x80 then some (0, b, 0)
  else if b < 0xC0 then none
  else if b < 0xE0 then some (1, b - 0xC0, 0x80)
  else if b < 0xF0 then some (2, b - 0xE0, 0x800)
  else if b < 0xF8 then some (3, b - 0xF0, 0x10000)
  else none

/-- The characters of a text of plain characters and octets, where `more` octets of a character
that starts with the bits `v` are still owed. -/
def assemble : (more v least : ℕ) → List (Char ⊕ ℕ) → Option (List Char)
  | 0, _, _, [] => some []
  | _ + 1, _, _, [] => none
  | 0, _, _, .inl ch :: ts => (assemble 0 0 0 ts).map (ch :: ·)
  | _ + 1, _, _, .inl _ :: _ => none
  | 0, _, _, .inr b :: ts =>
    match lead b with
    | none => none
    | some (0, v, _) => (assemble 0 0 0 ts).map (ofNat v :: ·)
    | some (more + 1, v, least) => assemble (more + 1) v least ts
  | more + 1, v, least, .inr b :: ts =>
    if 0x80 ≤ b ∧ b < 0xC0 then
      let v := v * 64 + (b - 0x80)
      if more = 0 then
        -- No overlong form, no surrogate, nothing above U+10FFFF.
        if least ≤ v ∧ v.isValidChar then (assemble 0 0 0 ts).map (ofNat v :: ·)
        else none
      else assemble more v least ts
    else none

section assemble

variable (v least : ℕ) (ts : List (Char ⊕ ℕ))

theorem assemble_plain (ch : Char) : assemble 0 v least (.inl ch :: ts) = (assemble 0 0 0 ts).map (ch :: ·) := rfl

theorem assemble_owed (more : ℕ) (ch : Char) : assemble (more + 1) v least (.inl ch :: ts) = none := rfl

theorem assemble_none (h : lead b = none) : assemble 0 v least (.inr b :: ts) = none := by
  show (match lead b with | none => none | some (0, v, _) => _ | some (more + 1, v, least) => _) = _
  rw [h]

theorem assemble_single {v' least' : ℕ} (h : lead b = some (0, v', least')) :
    assemble 0 v least (.inr b :: ts) = (assemble 0 0 0 ts).map (ofNat v' :: ·) := by
  show (match lead b with | none => none | some (0, v, _) => _ | some (more + 1, v, least) => _) = _
  rw [h]

theorem assemble_lead {more v' least' : ℕ} (h : lead b = some (more + 1, v', least')) :
    assemble 0 v least (.inr b :: ts) = assemble (more + 1) v' least' ts := by
  show (match lead b with | none => none | some (0, v, _) => _ | some (more + 1, v, least) => _) = _
  rw [h]

theorem assemble_more (more b : ℕ) : assemble (more + 1) v least (.inr b :: ts) =
    if 0x80 ≤ b ∧ b < 0xC0 then
      if more = 0 then
        if least ≤ v * 64 + (b - 0x80) ∧ (v * 64 + (b - 0x80)).isValidChar then
          (assemble 0 0 0 ts).map (ofNat (v * 64 + (b - 0x80)) :: ·)
        else none
      else assemble more (v * 64 + (b - 0x80)) least ts
    else none := rfl

end assemble

theorem assemble_step (more v least : ℕ) (t : Char ⊕ ℕ) :
    (∀ ts, assemble more v least (t :: ts) = none) ∨
      (∃ ch, ∀ ts, assemble more v least (t :: ts) = (assemble 0 0 0 ts).map (ch :: ·)) ∨
      ∃ more' v', more' ≠ 0 ∧ ∃ least', ∀ ts, assemble more v least (t :: ts) = assemble more' v' least' ts := by
  match more, t with
  | 0, .inl ch => exact .inr (.inl ⟨ch, fun ts => assemble_plain v least ts ch⟩)
  | more + 1, .inl ch => exact .inl fun ts => assemble_owed v least ts more ch
  | 0, .inr b =>
    match h : lead b with
    | none => exact .inl fun ts => assemble_none v least ts h
    | some (0, v', least') => exact .inr (.inl ⟨ofNat v', fun ts => assemble_single v least ts h⟩)
    | some (more + 1, v', least') =>
      exact .inr (.inr ⟨more + 1, v', Nat.succ_ne_zero more, least', fun ts => assemble_lead v least ts h⟩)
  | more + 1, .inr b =>
    simp only [assemble_more]
    split_ifs with hb hmore hv
    · exact .inr (.inl ⟨_, fun ts => rfl⟩)
    · exact .inl fun ts => rfl
    · exact .inr (.inr ⟨more, _, hmore, least, fun ts => rfl⟩)
    · exact .inl fun ts => rfl

theorem assemble_map_inl (r : List Char) : assemble 0 0 0 (r.map .inl) = some r := by
  induction r with
  | nil => rfl
  | cons a r ih =>
    rw [map_cons, assemble_plain, ih]
    rfl

theorem assemble_append_plain (ts : List (Char ⊕ ℕ)) (ch : Char) (r : List Char)
    (more v least : ℕ) : assemble more v least (ts ++ (ch :: r).map .inl) =
      (assemble more v least ts).map (· ++ ch :: r) := by
  induction ts generalizing more v least with
  | nil =>
    cases more with
    | zero =>
      rw [nil_append, map_cons, assemble_plain, assemble_map_inl]
      rfl
    | succ more => rfl
  | cons t ts ih =>
    rcases assemble_step more v least t with h | ⟨a, h⟩ | ⟨more', v', -, least', h⟩
    · rw [cons_append, h, h]
      rfl
    · rw [cons_append, h, h, ih]
      cases assemble 0 0 0 ts <;> rfl
    · rw [cons_append, h, h, ih]

theorem length_assemble (ts : List (Char ⊕ ℕ)) (more v least : ℕ) :
    ∀ s ∈ assemble more v least ts, s.length ≤ ts.length := by
  induction ts generalizing more v least with
  | nil =>
    intro s hs
    cases more with
    | zero =>
      rw [← some.inj hs]
      exact Nat.le_refl 0
    | succ more => cases hs
  | cons t ts ih =>
    intro s hs
    rcases assemble_step more v least t with h | ⟨a, h⟩ | ⟨more', v', -, least', h⟩
    · rw [h] at hs
      cases hs
    · rw [h] at hs
      obtain ⟨s', hs', rfl⟩ := map_eq_some_iff.mp hs
      exact Nat.succ_le_succ (ih 0 0 0 s' hs')
    · rw [h] at hs
      exact Nat.le_succ_of_le (ih more' v' least' s hs)

theorem assemble_eq_nil (ts : List (Char ⊕ ℕ)) (more v least : ℕ)
    (h : assemble more v least ts = some []) : more = 0 ∧ ts = [] := by
  induction ts generalizing more v least with
  | nil =>
    cases more with
    | zero => exact ⟨rfl, rfl⟩
    | succ more => cases h
  | cons t ts ih =>
    rcases assemble_step more v least t with hstep | ⟨a, hstep⟩ | ⟨more', v', hmore', least', hstep⟩
    · rw [hstep] at h
      cases h
    · rw [hstep] at h
      obtain ⟨s, -, hs⟩ := map_eq_some_iff.mp h
      cases hs
    · rw [hstep] at h
      exact absurd (ih more' v' least' h).1 hmore'

/-! ### UTF-8 -/

def utf8 (ch : Char) : List ℕ := (String.utf8EncodeChar ch).map UInt8.toNat

theorem utf8_lt : ∀ b ∈ utf8 ch, b < 256 := by
  intro b hb
  obtain ⟨x, -, rfl⟩ := List.mem_map.mp hb
  exact x.toNat_lt

theorem utf8_eq (ch : Char) :
    utf8 ch =
      if ch.toNat ≤ 0x7f then [ch.toNat]
      else if ch.toNat ≤ 0x7ff then [ch.toNat / 64 + 0xC0, ch.toNat % 64 + 0x80]
      else if ch.toNat ≤ 0xffff then
        [ch.toNat / 4096 + 0xE0, ch.toNat / 64 % 64 + 0x80, ch.toNat % 64 + 0x80]
      else
        [ch.toNat / 262144 + 0xF0, ch.toNat / 4096 % 64 + 0x80, ch.toNat / 64 % 64 + 0x80,
          ch.toNat % 64 + 0x80] := by
  have hlt : ch.val.toNat < 0x110000 := by
    rcases ch.valid with h | h <;> omega
  have hval : ch.toNat = ch.val.toNat := rfl
  rw [hval, utf8, String.utf8EncodeChar]
  generalize ch.val.toNat = v at hlt ⊢
  split_ifs <;> simp only [map_cons, map_nil, UInt8.toNat_ofNat', List.cons.injEq, and_true] <;>
    omega

theorem assemble_cont {more v least w : ℕ} (hb : 0x80 ≤ b ∧ b < 0xC0)
    (hw : v * 64 + (b - 0x80) = w) (ts : List (Char ⊕ ℕ)) :
    assemble (more + 2) v least (.inr b :: ts) = assemble (more + 1) w least ts := by
  rw [assemble_more, if_pos hb, if_neg (Nat.succ_ne_zero more), hw]

theorem assemble_last {v least w : ℕ} (hb : 0x80 ≤ b ∧ b < 0xC0)
    (hw : v * 64 + (b - 0x80) = w) (hleast : least ≤ w) (hvalid : w.isValidChar)
    (ts : List (Char ⊕ ℕ)) :
    assemble 1 v least (.inr b :: ts) = (assemble 0 0 0 ts).map (ofNat w :: ·) := by
  rw [assemble_more, if_pos hb, if_pos rfl, hw, if_pos ⟨hleast, hvalid⟩]

theorem assemble_utf8 (ch : Char) (ts : List (Char ⊕ ℕ)) :
    assemble 0 0 0 ((utf8 ch).map .inr ++ ts) = (assemble 0 0 0 ts).map (ch :: ·) := by
  have hvalid : ch.toNat.isValidChar := ch.valid
  have hofNat : ofNat ch.toNat = ch := Char.ofNat_toNat ch
  have hlt : ch.toNat < 0x110000 := by
    rcases hvalid with h | h <;> omega
  rw [utf8_eq]
  generalize ch.toNat = v at *
  split_ifs with h1 h2 h3
  · have hlead : lead v = some (0, v, 0) := by rw [lead, if_pos (by omega)]
    show assemble 0 0 0 (.inr v :: ts) = _
    rw [assemble_single 0 0 ts hlead, hofNat]
  · have hlead : lead (v / 64 + 0xC0) = some (1, v / 64, 0x80) := by
      rw [lead, if_neg (by omega), if_neg (by omega), if_pos (by omega), Nat.add_sub_cancel]
    show assemble 0 0 0 (.inr _ :: .inr _ :: ts) = _
    rw [assemble_lead 0 0 _ hlead, assemble_last (by omega) (by omega) (by omega) hvalid, hofNat]
  · have hlead : lead (v / 4096 + 0xE0) = some (2, v / 4096, 0x800) := by
      rw [lead, if_neg (by omega), if_neg (by omega), if_neg (by omega), if_pos (by omega),
        Nat.add_sub_cancel]
    show assemble 0 0 0 (.inr _ :: .inr _ :: .inr _ :: ts) = _
    rw [assemble_lead 0 0 _ hlead, assemble_cont (by omega) rfl,
      assemble_last (w := v) (by omega) (by omega) (by omega) hvalid, hofNat]
  · have hlead : lead (v / 262144 + 0xF0) = some (3, v / 262144, 0x10000) := by
      rw [lead, if_neg (by omega), if_neg (by omega), if_neg (by omega), if_neg (by omega),
        if_pos (by omega), Nat.add_sub_cancel]
    show assemble 0 0 0 (.inr _ :: .inr _ :: .inr _ :: .inr _ :: ts) = _
    rw [assemble_lead 0 0 _ hlead, assemble_cont (by omega) rfl, assemble_cont (by omega) rfl,
      assemble_last (w := v) (by omega) (by omega) (by omega) hvalid, hofNat]

/-! ### Components of a URL -/

/-- What `encodeURIComponent` leaves alone. -/
def unreserved (ch : Char) : Bool := ch.isAlphanum || "-_.!~*'()".toList.contains ch

def encodeURIComponent (s : List Char) : List Char :=
  s.flatMap fun ch => if unreserved ch then [ch] else (utf8 ch).flatMap percent

def decodeURIComponent (s : List Char) : Option (List Char) := (octets s).bind (assemble 0 0 0)

theorem decodeURIComponent_plain (h : ch ≠ '%') (s : List Char) :
    decodeURIComponent (ch :: s) = (decodeURIComponent s).map (ch :: ·) := by
  rw [decodeURIComponent, decodeURIComponent, octets_plain h]
  cases octets s <;> rfl

theorem decodeURIComponent_utf8 (ch : Char) (s : List Char) :
    decodeURIComponent ((utf8 ch).flatMap percent ++ s) = (decodeURIComponent s).map (ch :: ·) := by
  have hoctets : ∀ bs : List ℕ, (∀ b ∈ bs, b < 256) →
      octets (bs.flatMap percent ++ s) = (octets s).map (bs.map .inr ++ ·) := by
    intro bs hbs
    induction bs with
    | nil => simp
    | cons b bs ih =>
      have hb := hbs b mem_cons_self
      rw [flatMap_cons, append_assoc, octets_percent hb,
        ih fun b hb => hbs b (mem_cons_of_mem _ hb), Option.map_map]
      rfl
  rw [decodeURIComponent, decodeURIComponent, hoctets _ utf8_lt]
  cases octets s <;> simp [assemble_utf8]

theorem decodeURIComponent_encode (s : List Char) :
    decodeURIComponent (encodeURIComponent s) = some s := by
  induction s with
  | nil => rfl
  | cons ch s ih =>
    show decodeURIComponent ((if unreserved ch then [ch] else (utf8 ch).flatMap percent) ++
      encodeURIComponent s) = _
    split_ifs with h
    · have hne : ch ≠ '%' := by
        rintro rfl
        exact absurd h (by decide)
      rw [singleton_append, decodeURIComponent_plain hne, ih, map_some]
    · rw [decodeURIComponent_utf8, ih, map_some]

theorem mem_percent (hb : b < 256) (h : ch ∈ percent b) : ch = '%' ∨ unreserved ch := by
  have hdigit : ∀ n < 16, unreserved (hexDigit n) = true := by decide
  simp only [percent, mem_cons, not_mem_nil, or_false] at h
  rcases h with rfl | rfl | rfl
  · exact .inl rfl
  · exact .inr (hdigit _ (by omega))
  · exact .inr (hdigit _ (by omega))

theorem mem_encodeURIComponent (h : ch ∈ encodeURIComponent s) : ch = '%' ∨ unreserved ch := by
  obtain ⟨a, -, ha⟩ := mem_flatMap.mp h
  split_ifs at ha with hun
  · rw [mem_singleton.mp ha]
    exact .inr hun
  · obtain ⟨b, hb, hch⟩ := mem_flatMap.mp ha
    exact mem_percent (utf8_lt b hb) hch

theorem not_mem_encodeURIComponent {x : Char} (hne : x ≠ '%') (hun : unreserved x = false)
    (s : List Char) : x ∉ encodeURIComponent s := by
  intro h
  rcases mem_encodeURIComponent h with h | h
  · exact hne h
  · rw [hun] at h
    cases h

theorem length_octets : ∀ ts ∈ octets s, ts.length ≤ s.length := by
  induction s using octets_induction with
  | nil =>
    intro ts hts
    rw [← some.inj hts]
    exact Nat.le_refl 0
  | escape a b s ih =>
    intro ts hts
    rw [octets_escape] at hts
    obtain ⟨hi, -, hts⟩ := bind_eq_some_iff.mp hts
    obtain ⟨lo, -, hts⟩ := bind_eq_some_iff.mp hts
    obtain ⟨us, hus, rfl⟩ := map_eq_some_iff.mp hts
    have := ih us hus
    simp only [length_cons]
    omega
  | short s hs =>
    intro ts hts
    rw [octets_short hs] at hts
    cases hts
  | plain a s ha ih =>
    intro ts hts
    rw [octets_plain ha] at hts
    obtain ⟨us, hus, rfl⟩ := map_eq_some_iff.mp hts
    exact Nat.succ_le_succ (ih us hus)

theorem octets_eq_nil (h : octets s = some []) : s = [] := by
  cases s using octets_induction with
  | nil => rfl
  | escape a b s =>
    rw [octets_escape] at h
    obtain ⟨hi, -, hts⟩ := bind_eq_some_iff.mp h
    obtain ⟨lo, -, hts⟩ := bind_eq_some_iff.mp hts
    obtain ⟨us, -, hnil⟩ := map_eq_some_iff.mp hts
    cases hnil
  | short s hs =>
    rw [octets_short hs] at h
    cases h
  | plain a s ha =>
    rw [octets_plain ha] at h
    obtain ⟨us, -, hnil⟩ := map_eq_some_iff.mp h
    cases hnil

theorem length_decodeURIComponent : ∀ t ∈ decodeURIComponent s, t.length ≤ s.length := by
  intro t ht
  obtain ⟨ts, hts, ht⟩ := bind_eq_some_iff.mp ht
  exact Nat.le_trans (length_assemble ts 0 0 0 t ht) (length_octets ts hts)

theorem decodeURIComponent_eq_nil (h : decodeURIComponent s = some []) : s = [] := by
  obtain ⟨ts, hts, hnil⟩ := bind_eq_some_iff.mp h
  rw [(assemble_eq_nil ts 0 0 0 hnil).2] at hts
  exact octets_eq_nil hts

theorem decodeURIComponent_append (hch : hexVal ch = none) {r : List Char}
    (hr : '%' ∉ ch :: r) (n : List Char) :
    decodeURIComponent (n ++ ch :: r) = (decodeURIComponent n).map (· ++ ch :: r) := by
  have hplain : ∀ r : List Char, '%' ∉ r → octets r = some (r.map .inl) := by
    intro r hr
    induction r with
    | nil => rfl
    | cons a r ih =>
      have ha : a ≠ '%' := fun h => hr (h ▸ mem_cons_self)
      rw [octets_plain ha, ih fun h => hr (mem_cons_of_mem _ h)]
      rfl
  rw [decodeURIComponent, decodeURIComponent, octets_append hch, hplain _ hr]
  cases octets n with
  | none => rfl
  | some ts => exact assemble_append_plain ts ch r 0 0 0

end IncusCloud.Lib
