import IncusCloud.Lib.Text
import Mathlib.Data.Nat.Log

/-!
# JavaScript numbers that are whole

What `Number` reads from decimal digits is a double: the nearest one with 53 significant bits, the
even one of two that are as near, and infinity where it would reach `2 ^ 1024`. So is a difference.

* `Number.ofInt_of_lt`: below `2 ^ 53` nothing is rounded.
-/

open List Option
open Nat (log2)

namespace IncusCloud.Lib

inductive Number
  | int (i : ℤ)
  | infinity (negative : Bool)
  | nan
  deriving DecidableEq

/-- The nearest multiple of a power of two that has 53 significant bits. -/
def roundNat (n : ℕ) : ℕ :=
  let e := log2 n - 52
  let q := n / 2 ^ e
  let r := n % 2 ^ e
  (if 2 ^ e < 2 * r ∨ (2 * r = 2 ^ e ∧ q % 2 = 1) then q + 1 else q) * 2 ^ e

namespace Number

def ofInt (i : ℤ) : Number :=
  let n := roundNat i.natAbs
  if 2 ^ 1024 ≤ n then infinity (i < 0) else int (if i < 0 then -n else n)

def ofDigits (digits : List Char) : Number := ofInt (decimal digits)

def sub : Number → Number → Number
  | nan, _ => nan
  | _, nan => nan
  | int a, int b => ofInt (a - b)
  | int _, infinity s => infinity !s
  | infinity s, int _ => infinity s
  | infinity s, infinity s' => if s = s' then nan else infinity s

/-- `a || b`: zero and what is not a number are passed over. -/
def or : Number → Number → Number
  | int 0, b => b
  | nan, b => b
  | a, _ => a

def lt : Number → ℤ → Bool
  | int a, n => a < n
  | infinity s, _ => s
  | nan, _ => false

def gt : Number → ℤ → Bool
  | int a, n => n < a
  | infinity s, _ => !s
  | nan, _ => false

def differs (a b : Number) : Bool := a = nan || a ≠ b

def isInt (a : Number) (n : ℤ) : Bool := a = int n

theorem or_of_ne_zero {i : ℤ} (hi : i ≠ 0) (b : Number) : (int i).or b = int i := by
  unfold or
  split
  · rename_i h
    exact absurd (int.inj h) hi
  · rename_i h
    cases h
  · rfl

theorem roundNat_of_lt {n : ℕ} (h : n < 2 ^ 53) : roundNat n = n := by
  have hlog : log2 n - 52 = 0 := by
    rcases Nat.eq_zero_or_pos n with rfl | hpos
    · rfl
    · have hlt : log2 n < 53 := (Nat.log2_lt (by omega)).mpr h
      omega
  unfold roundNat
  simp [hlog, Nat.mod_one]

theorem ofInt_of_lt {i : ℤ} (h : i.natAbs < 2 ^ 53) : ofInt i = int i := by
  have hsmall : i.natAbs < 2 ^ 1024 := by
    apply Nat.lt_of_lt_of_le h
    apply Nat.pow_le_pow_right
    · omega
    · omega
  unfold ofInt
  rw [roundNat_of_lt h]
  simp only [Nat.not_le.mpr hsmall, if_false]
  split_ifs <;> congr 1 <;> omega

end Number

/-!
### JavaScript's `Number` of a text

What `Number(text)` is where that is whole, of a text without white space around it. A decimal text
is read exactly and rounded to a double: the nearest multiple of a power of two with 53 significant
bits, or of the least one, `2 ^ -1074`, the even one of two that are as near.
-/

/-- The nearest whole number to `n / d`, the even one of two. -/
def roundHalfEven (n d : ℕ) : ℕ :=
  let q := n / d
  let r := n % d
  if d < 2 * r ∨ (2 * r = d ∧ q % 2 = 1) then q + 1 else q

/-- How many binary places after the point a double for `n / d` has. -/
def doublePlaces (n d : ℕ) : ℕ :=
  if d ≤ n then 52 - log2 (n / d) else min (52 + Nat.clog 2 ((d + n - 1) / n)) 1074

def wholeDouble (n d : ℕ) : Option ℕ :=
  if n = 0 then some 0
  else
    let above := log2 (n / d) - 52
    let places := doublePlaces n d
    let q := roundHalfEven (n * 2 ^ places) (d * 2 ^ above)
    (if q % 2 ^ places = 0 then some (q * 2 ^ above / 2 ^ places) else none).filter (· < 2 ^ 1024)

def digitValue (base : ℕ) (ch : Char) : Option ℕ :=
  let n := ch.toNat
  let v :=
    if ch.isDigit then some (n - '0'.toNat)
    else if 'a'.toNat ≤ n ∧ n ≤ 'f'.toNat then some (n - 'a'.toNat + 10)
    else if 'A'.toNat ≤ n ∧ n ≤ 'F'.toNat then some (n - 'A'.toNat + 10)
    else none
  v.filter (· < base)

/-- The digits after `0x`, `0o` or `0b`. -/
def readBase (base : ℕ) (digits : List Char) : Option ℕ :=
  if digits = [] then none
  else (digits.mapM (digitValue base)).bind fun ds => wholeDouble (ds.foldl (fun n d => base * n + d) 0) 1

def readSign : List Char → Bool × List Char
  | '-' :: s => (true, s)
  | '+' :: s => (false, s)
  | s => (false, s)

def readExponent : Option (List Char) → Option (Bool × ℕ)
  | none => some (false, 0)
  | some s =>
    let digits := (readSign s).2
    if digits ≠ [] && digits.all Char.isDigit then some ((readSign s).1, decimal digits) else none

def readDecimal (s : List Char) : Option ℕ :=
  let mantissa := s.takeWhile fun ch => ch ≠ 'e' && ch ≠ 'E'
  let rest := s.dropWhile fun ch => ch ≠ 'e' && ch ≠ 'E'
  let whole := (cut '.' mantissa).1
  let fraction := (cut '.' mantissa).2.getD []
  if whole ++ fraction ≠ [] && (whole ++ fraction).all Char.isDigit then
    (readExponent (if rest = [] then none else some rest.tail)).bind fun e =>
      let n := decimal (whole ++ fraction)
      if e.1 then wholeDouble n (10 ^ (fraction.length + e.2))
      else wholeDouble (n * 10 ^ e.2) (10 ^ fraction.length)
  else none

def wholeNumber (text : List Char) : Option ℤ :=
  match text with
  | [] => some 0
  | '0' :: 'x' :: s | '0' :: 'X' :: s => (readBase 16 s).map Int.ofNat
  | '0' :: 'o' :: s | '0' :: 'O' :: s => (readBase 8 s).map Int.ofNat
  | '0' :: 'b' :: s | '0' :: 'B' :: s => (readBase 2 s).map Int.ofNat
  | s =>
    let n := readDecimal (readSign s).2
    if (readSign s).1 then n.map fun n => -(n : ℤ) else n.map Int.ofNat

example : wholeNumber "2.4e1".toList = some 24 := by decide +kernel

/-! ### Decimal digits -/

theorem wholeDouble_of_lt {n : ℕ} (h : n < 2 ^ 53) : wholeDouble n 1 = some n := by
  unfold wholeDouble
  split_ifs with hn
  · rw [hn]
  · have hlog : log2 n < 53 := (Nat.log2_lt hn).mpr h
    have habove : log2 (n / 1) - 52 = 0 := by
      rw [Nat.div_one]
      omega
    have hlarge : n < 2 ^ 1024 := by
      apply Nat.lt_of_lt_of_le h
      apply Nat.pow_le_pow_right
      · omega
      · omega
    simp only [habove, pow_zero, Nat.mul_one]
    have hround : ∀ x, roundHalfEven x 1 = x := by
      intro x
      simp [roundHalfEven, Nat.mod_one]
    rw [hround]
    have hpos : 0 < 2 ^ doublePlaces n 1 := Nat.pow_pos (by decide)
    rw [if_pos (Nat.mul_mod_left _ _), Nat.mul_div_cancel _ hpos]
    exact filter_eq_some_iff.mpr ⟨rfl, decide_eq_true hlarge⟩

theorem le_of_wholeDouble {n m : ℕ} (h : 2 ^ 53 ≤ n) (hm : wholeDouble n 1 = some m) : 2 ^ 52 ≤ m := by
  have hn : n ≠ 0 := by
    have := Nat.pow_pos (n := 53) (show 0 < 2 by decide)
    omega
  have hlog : 53 ≤ log2 n := (Nat.le_log2 hn).mpr h
  have hplaces : doublePlaces n 1 = 0 := by
    unfold doublePlaces
    rw [if_pos (by omega), Nat.div_one]
    omega
  unfold wholeDouble at hm
  rw [if_neg hn, hplaces, Nat.div_one] at hm
  simp only [pow_zero, Nat.mul_one, Nat.one_mul, Nat.mod_one, if_true, Nat.div_one] at hm
  obtain ⟨heq, -⟩ := filter_eq_some_iff.mp hm
  obtain rfl := some.inj heq
  -- The 53 bits that are kept come to `2 ^ 52` at least.
  have hkept : 2 ^ 52 ≤ n / 2 ^ (log2 n - 52) := by
    rw [Nat.le_div_iff_mul_le (Nat.pow_pos (by decide)), ← pow_add]
    have hexp : 52 + (log2 n - 52) = log2 n := by omega
    rw [hexp]
    exact Nat.log2_self_le hn
  have hround : n / 2 ^ (log2 n - 52) ≤ roundHalfEven n (2 ^ (log2 n - 52)) := by
    unfold roundHalfEven
    dsimp only
    split_ifs <;> omega
  calc 2 ^ 52 ≤ roundHalfEven n (2 ^ (log2 n - 52)) := le_trans hkept hround
    _ ≤ _ := Nat.le_mul_of_pos_right _ (Nat.pow_pos (by decide))

variable {s : List Char}

theorem splitExponent_of_not_mem (he : 'e' ∉ s) (hE : 'E' ∉ s) :
    (s.takeWhile fun ch => ch ≠ 'e' && ch ≠ 'E') = s ∧ (s.dropWhile fun ch => ch ≠ 'e' && ch ≠ 'E') = [] := by
  have hmantissa : (s.takeWhile fun ch => ch ≠ 'e' && ch ≠ 'E') = s := by
    apply takeWhile_eq_self_iff.mpr
    intro ch hch
    have he' : ch ≠ 'e' := by rintro rfl; exact he hch
    have hE' : ch ≠ 'E' := by rintro rfl; exact hE hch
    simp [he', hE']
  refine ⟨hmantissa, ?_⟩
  have hsplit := takeWhile_append_dropWhile (p := fun ch => ch ≠ 'e' && ch ≠ 'E') (l := s)
  rw [hmantissa] at hsplit
  simpa using hsplit

theorem readSign_of_head (hminus : '-' ∉ s.head?) (hplus : '+' ∉ s.head?) :
    readSign s = (false, s) := by
  unfold readSign
  split
  · exact absurd rfl hminus
  · exact absurd rfl hplus
  · rfl

theorem wholeNumber_digits (hne : s ≠ []) (h : ∀ ch ∈ s, ch.isDigit = true) :
    wholeNumber s = (wholeDouble (decimal s) 1).map Int.ofNat := by
  have hnot : ∀ ch : Char, ch.isDigit = false → ch ∉ s := by
    intro ch hch hmem
    rw [h ch hmem] at hch
    cases hch
  obtain ⟨hmantissa, hrest⟩ := splitExponent_of_not_mem (hnot 'e' (by decide)) (hnot 'E' (by decide))
  have hread : readDecimal s = wholeDouble (decimal s) 1 := by
    unfold readDecimal
    dsimp only
    rw [hmantissa, hrest, cut_of_not_mem (hnot '.' (by decide))]
    have hall : s.all Char.isDigit = true := all_eq_true.mpr h
    simp [hne, hall, readExponent]
  have hsign : readSign s = (false, s) :=
    readSign_of_head (fun hmem => hnot '-' (by decide) (mem_of_mem_head? hmem))
      (fun hmem => hnot '+' (by decide) (mem_of_mem_head? hmem))
  unfold wholeNumber
  split
  · exact absurd rfl hne
  · exact absurd (mem_cons_of_mem _ mem_cons_self) (hnot 'x' (by decide))
  · exact absurd (mem_cons_of_mem _ mem_cons_self) (hnot 'X' (by decide))
  · exact absurd (mem_cons_of_mem _ mem_cons_self) (hnot 'o' (by decide))
  · exact absurd (mem_cons_of_mem _ mem_cons_self) (hnot 'O' (by decide))
  · exact absurd (mem_cons_of_mem _ mem_cons_self) (hnot 'b' (by decide))
  · exact absurd (mem_cons_of_mem _ mem_cons_self) (hnot 'B' (by decide))
  · rw [hsign, hread]
    rfl

theorem wholeNumber_small (hne : s ≠ []) (h : ∀ ch ∈ s, ch.isDigit = true) {k : ℕ}
    (hk : k < 2 ^ 52) : wholeNumber s = some (k : ℤ) ↔ decimal s = k := by
  rw [wholeNumber_digits hne h]
  by_cases hs : decimal s < 2 ^ 53
  · rw [wholeDouble_of_lt hs, map_some, some_inj]
    exact Int.ofNat_inj
  · constructor
    · intro heq
      obtain ⟨m, hm, hmk⟩ := map_eq_some_iff.mp heq
      have hle := le_of_wholeDouble (Nat.le_of_not_lt hs) hm
      have hmk' : m = k := Int.ofNat_inj.mp hmk
      omega
    · intro heq
      omega

end IncusCloud.Lib
