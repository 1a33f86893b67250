import IncusCloud.Lib.NumberFormat
import IncusCloud.Lib.Pattern
import Mathlib.Data.Rat.Floor
import Mathlib.Data.Nat.Factorization.Basic
import Mathlib.Tactic.Positivity

/-!
# JavaScript numbers

A double as the rational it stands for: what `Number(text)` reads, and sums, differences and
products, each the nearest double to the exact value. The sign of a zero is left out.

* `roundNat_eq_self_iff`: the whole numbers that are not rounded.
* `roundNat_mono`: rounding keeps the order.
* `scale_eq_iff`: when a product of whole numbers comes out exact.
-/

open List Option
open Nat (log2 two_pow_pos pow_le_pow_right le_log2 log2_self_le)
open Char (isDigit)

namespace IncusCloud.Lib

variable {a b m n : ℕ}

/-- A double: a rational with 53 significant bits, infinite or not a number. -/
inductive Double
  | num (q : ℚ)
  | infinity (negative : Bool)
  | nan
  deriving DecidableEq

namespace Double

/-- The nearest double to `n / d`, were there no largest one. -/
def nearest (n d : ℕ) : ℚ :=
  if n = 0 then 0
  else
    let above := log2 (n / d) - 52
    let places := doublePlaces n d
    (roundHalfEven (n * 2 ^ places) (d * 2 ^ above) * 2 ^ above : ℕ) / (2 ^ places : ℕ)

def ofRat (x : ℚ) : Double :=
  let m := nearest x.num.natAbs x.den
  if 2 ^ 1024 ≤ m then infinity (x < 0) else num (if x < 0 then -m else m)

def add : Double → Double → Double
  | nan, _ => nan
  | _, nan => nan
  | num a, num b => ofRat (a + b)
  | num _, infinity s => infinity s
  | infinity s, num _ => infinity s
  | infinity s, infinity s' => if s = s' then infinity s else nan

/-- `-a`. -/
def neg : Double → Double
  | nan => nan
  | num a => num (-a)
  | infinity s => infinity !s

def sub (a b : Double) : Double := add a b.neg

def mul : Double → Double → Double
  | nan, _ => nan
  | _, nan => nan
  | num a, num b => ofRat (a * b)
  | num a, infinity s => if a = 0 then nan else infinity (s != decide (a < 0))
  | infinity s, num b => if b = 0 then nan else infinity (s != decide (b < 0))
  | infinity s, infinity s' => infinity (s != s')

def round : Double → Double
  | num q => num ⌊q + 1 / 2⌋
  | x => x

def or (a b : Double) : Double := if a = num 0 ∨ a = nan then b else a

def sumOf {α : Type*} (f : α → Double) (xs : List α) : Double := xs.foldl (fun a x => add a (f x)) (num 0)

end Double

def stripSpaces (s : List Char) : List Char := ((s.dropWhile isSpace).reverse.dropWhile isSpace).reverse

def readExactly (s : List Char) : Option ℚ :=
  let mantissa := s.takeWhile fun ch => ch ≠ 'e' && ch ≠ 'E'
  let rest := s.dropWhile fun ch => ch ≠ 'e' && ch ≠ 'E'
  let whole := (cut '.' mantissa).1
  let fraction := (cut '.' mantissa).2.getD []
  if whole ++ fraction ≠ [] && (whole ++ fraction).all isDigit then
    (readExponent (if rest = [] then none else some rest.tail)).map fun e =>
      let n : ℚ := decimal (whole ++ fraction) / 10 ^ fraction.length
      if e.1 then n / 10 ^ e.2 else n * 10 ^ e.2
  else none

/-- The digits after `0x`, `0o` or `0b`. -/
def readInBase (base : ℕ) (digits : List Char) : Double :=
  if digits = [] then .nan
  else
    match digits.mapM (digitValue base) with
    | none => .nan
    | some ds => .ofRat (ds.foldl (fun n d => base * n + d) 0 : ℕ)

namespace Double

def ofText (text : List Char) : Double :=
  match stripSpaces text with
  | [] => num 0
  | '0' :: 'x' :: s | '0' :: 'X' :: s => readInBase 16 s
  | '0' :: 'o' :: s | '0' :: 'O' :: s => readInBase 8 s
  | '0' :: 'b' :: s | '0' :: 'B' :: s => readInBase 2 s
  | s =>
    let sign := readSign s
    if sign.2 = "Infinity".toList then infinity sign.1
    else
      match readExactly sign.2 with
      | none => nan
      | some x => ofRat (if sign.1 then -x else x)

example : (ofText " 1.5e1 ".toList).mul (ofText "0x10".toList) = num 240 := by decide +kernel

end Double

/-! ### Reading -/

theorem stripSpaces_eq_self {s : List Char} (h : ∀ ch ∈ s, isSpace ch = false) : stripSpaces s = s := by
  have hdrop : ∀ t : List Char, (∀ ch ∈ t, isSpace ch = false) → t.dropWhile isSpace = t := by
    intro t ht
    cases t with
    | nil => rfl
    | cons ch t => exact dropWhile_cons_of_neg (by rw [ht ch mem_cons_self]; decide)
  unfold stripSpaces
  rw [hdrop s h, hdrop s.reverse (by simpa using h), reverse_reverse]

theorem not_isSpace_of_plain {ch : Char} (h : ch.isDigit = true ∨ ch = ',' ∨ ch = '-') :
    isSpace ch = false := by
  rcases h with h | rfl | rfl
  · exact Number.isSpace_of_isDigit h
  · decide
  · decide

theorem readExactly_whole {s : List Char} (he : 'e' ∉ s) (hE : 'E' ∉ s) (hpoint : '.' ∉ s) :
    readExactly s = if s ≠ [] ∧ s.all isDigit = true then some (decimal s : ℚ) else none := by
  obtain ⟨hmantissa, hrest⟩ := splitExponent_of_not_mem he hE
  unfold readExactly
  dsimp only
  rw [hmantissa, hrest, cut_of_not_mem hpoint, getD_none, append_nil]
  simp [readExponent]

theorem Double.ofText_plain {d : Char} {s : List Char} (hd : d.isDigit = true)
    (h : ∀ ch ∈ s, ch.isDigit = true ∨ ch = ',' ∨ ch = '-') :
    ofText (d :: s) = if s.all isDigit = true then ofRat (decimal (d :: s)) else nan := by
  have hnot : ∀ ch : Char, ch.isDigit = false → ch ≠ ',' → ch ≠ '-' → ch ∉ d :: s := by
    intro ch hdigit hcomma hdash hmem
    rcases mem_cons.mp hmem with rfl | hmem
    · rw [hd] at hdigit
      cases hdigit
    · rcases h ch hmem with hch | hch | hch
      · rw [hch] at hdigit
        cases hdigit
      · exact hcomma hch
      · exact hdash hch
  have hstrip : stripSpaces (d :: s) = d :: s := by
    apply stripSpaces_eq_self
    intro ch hch
    rcases mem_cons.mp hch with rfl | hch
    · exact Number.isSpace_of_isDigit hd
    · exact not_isSpace_of_plain (h ch hch)
  have hsign : readSign (d :: s) = (false, d :: s) := by
    apply readSign_of_head
    · rintro hhead
      obtain rfl : d = '-' := some.inj hhead
      cases hd
    · rintro hhead
      obtain rfl : d = '+' := some.inj hhead
      cases hd
  have hinfinity : d :: s ≠ "Infinity".toList := by
    intro heq
    exact hnot 'I' (by decide) (by decide) (by decide) (heq ▸ by decide)
  have hread := readExactly_whole (hnot 'e' (by decide) (by decide) (by decide))
    (hnot 'E' (by decide) (by decide) (by decide)) (hnot '.' (by decide) (by decide) (by decide))
  have hbase : ∀ ch : Char, ch.isDigit = false → ch ≠ ',' → ch ≠ '-' → ∀ t, d :: s ≠ '0' :: ch :: t := by
    intro ch hdigit hcomma hdash t heq
    exact hnot ch hdigit hcomma hdash (heq ▸ mem_cons_of_mem _ mem_cons_self)
  unfold ofText
  rw [hstrip]
  split
  · rename_i heq
    cases heq
  · rename_i t heq
    exact absurd heq (hbase 'x' (by decide) (by decide) (by decide) t)
  · rename_i t heq
    exact absurd heq (hbase 'X' (by decide) (by decide) (by decide) t)
  · rename_i t heq
    exact absurd heq (hbase 'o' (by decide) (by decide) (by decide) t)
  · rename_i t heq
    exact absurd heq (hbase 'O' (by decide) (by decide) (by decide) t)
  · rename_i t heq
    exact absurd heq (hbase 'b' (by decide) (by decide) (by decide) t)
  · rename_i t heq
    exact absurd heq (hbase 'B' (by decide) (by decide) (by decide) t)
  · rw [hsign]
    dsimp only
    rw [if_neg hinfinity, hread, all_cons, hd, Bool.true_and]
    by_cases hall : s.all isDigit = true
    · rw [if_pos ⟨cons_ne_nil d s, hall⟩, if_pos hall]
      rfl
    · rw [if_neg fun hand => hall hand.2, if_neg hall]

/-! ### Whole numbers -/

def Exact (n : ℕ) : Prop := ∃ k e, k < 2 ^ 53 ∧ n = k * 2 ^ e

section

open Number

theorem pow_log2_le_roundNat (h : n ≠ 0) : 2 ^ log2 n ≤ roundNat n := by
  have hlow := log2_self_le h
  unfold roundNat
  dsimp only
  set e := log2 n - 52 with he
  by_cases hsmall : log2 n < 52
  · have hzero : e = 0 := by omega
    rw [hzero]
    simpa [Nat.mod_one] using hlow
  · have hexp : log2 n = 52 + e := by omega
    have hq : 2 ^ 52 ≤ n / 2 ^ e := by
      rw [Nat.le_div_iff_mul_le (two_pow_pos e), ← pow_add, ← hexp]
      exact hlow
    rw [hexp, pow_add]
    apply Nat.mul_le_mul_right
    split_ifs <;> omega

theorem roundNat_le_pow : roundNat n ≤ 2 ^ (log2 n + 1) := by
  have hhigh : n < 2 ^ (log2 n + 1) := Nat.lt_log2_self
  by_cases hsmall : n < 2 ^ 53
  · rw [roundNat_of_lt hsmall]
    exact hhigh.le
  · have hlog : 53 ≤ log2 n := (le_log2 (by omega)).mpr (Nat.not_lt.mp hsmall)
    unfold roundNat
    dsimp only
    set e := log2 n - 52 with he
    have hexp : log2 n + 1 = 53 + e := by omega
    rw [hexp, pow_add] at hhigh ⊢
    have hq : n / 2 ^ e < 2 ^ 53 := (Nat.div_lt_iff_lt_mul (two_pow_pos e)).mpr hhigh
    apply Nat.mul_le_mul_right
    split_ifs <;> omega

theorem roundNat_mono (h : a ≤ b) : roundNat a ≤ roundNat b := by
  by_cases ha : a = 0
  · rw [ha]
    exact Nat.zero_le _
  have hlog : log2 a ≤ log2 b := (le_log2 (by omega)).mpr (le_trans (log2_self_le ha) h)
  rcases Nat.eq_or_lt_of_le hlog with heq | hlt
  · unfold roundNat
    dsimp only
    rw [heq]
    set e := log2 b - 52
    apply Nat.mul_le_mul_right
    have hq : a / 2 ^ e ≤ b / 2 ^ e := Nat.div_le_div_right h
    have hda := Nat.div_add_mod a (2 ^ e)
    have hdb := Nat.div_add_mod b (2 ^ e)
    rcases Nat.eq_or_lt_of_le hq with hqe | hql
    · rw [hqe] at hda ⊢
      split_ifs <;> omega
    · split_ifs <;> omega
  · calc roundNat a ≤ 2 ^ (log2 a + 1) := roundNat_le_pow
      _ ≤ 2 ^ log2 b := pow_le_pow_right (by decide) hlt
      _ ≤ roundNat b := pow_log2_le_roundNat (by omega)

theorem exact_roundNat (n : ℕ) : Exact (roundNat n) := by
  by_cases hsmall : n < 2 ^ 53
  · rw [roundNat_of_lt hsmall]
    exact ⟨n, 0, hsmall, by rw [pow_zero, mul_one]⟩
  · have hhigh : n < 2 ^ (log2 n + 1) := Nat.lt_log2_self
    have hlog : 53 ≤ log2 n := (le_log2 (by omega)).mpr (Nat.not_lt.mp hsmall)
    unfold roundNat
    dsimp only
    set e := log2 n - 52 with he
    have hexp : log2 n + 1 = 53 + e := by omega
    rw [hexp, pow_add] at hhigh
    have hq : n / 2 ^ e < 2 ^ 53 := (Nat.div_lt_iff_lt_mul (two_pow_pos e)).mpr hhigh
    split_ifs with hup
    · by_cases htop : n / 2 ^ e + 1 = 2 ^ 53
      · -- The carry out of the 53 bits.
        refine ⟨1, 53 + e, by decide, ?_⟩
        rw [htop, pow_add, one_mul]
      · exact ⟨n / 2 ^ e + 1, e, by omega, rfl⟩
    · exact ⟨n / 2 ^ e, e, hq, rfl⟩

theorem roundNat_eq_self_iff : roundNat n = n ↔ Exact n := by
  constructor
  · intro h
    exact h ▸ exact_roundNat n
  · rintro ⟨k, e', hk, hn⟩
    by_cases hsmall : n < 2 ^ 53
    · exact roundNat_of_lt hsmall
    · have hne : n ≠ 0 := by omega
      have hlow : 2 ^ log2 n ≤ n := log2_self_le hne
      have hlt : 2 ^ log2 n < 2 ^ (53 + e') := by
        calc 2 ^ log2 n ≤ k * 2 ^ e' := hn ▸ hlow
          _ < 2 ^ 53 * 2 ^ e' := Nat.mul_lt_mul_of_pos_right hk (two_pow_pos e')
          _ = 2 ^ (53 + e') := (pow_add ..).symm
      have hexp : log2 n < 53 + e' := (Nat.pow_lt_pow_iff_right (by decide)).mp hlt
      have hle : log2 n - 52 ≤ e' := by omega
      have hdvd : 2 ^ (log2 n - 52) ∣ n := (Nat.pow_dvd_pow 2 hle).trans ⟨k, hn.trans (mul_comm k _)⟩
      have hmod : n % 2 ^ (log2 n - 52) = 0 := Nat.mod_eq_zero_of_dvd hdvd
      have hpos := two_pow_pos (log2 n - 52)
      unfold roundNat
      dsimp only
      rw [hmod, if_neg (by omega)]
      exact Nat.div_mul_cancel hdvd

theorem Exact.of_mul (hm : 0 < m) (h : Exact (n * m)) : Exact n := by
  obtain ⟨k, e, hk, heq⟩ := h
  rcases Nat.eq_zero_or_pos n with rfl | hn
  · exact ⟨0, 0, by decide, rfl⟩
  · obtain ⟨a, b, hb, hnb⟩ := Nat.exists_eq_two_pow_mul_odd hn.ne'
    have hkpos : 0 < k := by
      rcases Nat.eq_zero_or_pos k with rfl | hk0
      · have hprod : 0 < n * m := Nat.mul_pos hn hm
        omega
      · exact hk0
    have hdvd : b ∣ k * 2 ^ e := by
      rw [← heq, hnb, mul_assoc]
      exact Dvd.dvd.mul_left (Dvd.intro m rfl) _
    have hcop : Nat.Coprime b (2 ^ e) := (Nat.coprime_two_right.mpr hb).pow_right e
    have hle : b ≤ k := Nat.le_of_dvd hkpos (hcop.dvd_of_dvd_mul_right hdvd)
    exact ⟨b, a, by omega, by rw [hnb, mul_comm]⟩

end

namespace Double

theorem nearest_pos {d k : ℕ} (hn : 0 < n) (hd : 0 < d) (hsmall : d ≤ 2 ^ k) (hk : k ≤ 1074) :
    0 < nearest n d := by
  have hplaces : d * 2 ^ (log2 (n / d) - 52) ≤ n * 2 ^ doublePlaces n d := by
    unfold doublePlaces
    split_ifs with hle
    · have hlog : 2 ^ log2 (n / d) ≤ n / d := log2_self_le (Nat.div_pos hle hd).ne'
      calc d * 2 ^ (log2 (n / d) - 52) ≤ d * 2 ^ log2 (n / d) :=
            Nat.mul_le_mul_left d (pow_le_pow_right (by decide) (Nat.sub_le _ _))
        _ ≤ d * (n / d) := Nat.mul_le_mul_left d hlog
        _ ≤ n := Nat.mul_div_le n d
        _ ≤ n * 2 ^ (52 - log2 (n / d)) := Nat.le_mul_of_pos_right n (two_pow_pos _)
    · have hzero : n / d = 0 := Nat.div_eq_of_lt (not_le.mp hle)
      rw [hzero, show log2 0 - 52 = 0 by decide, pow_zero, mul_one]
      generalize 1074 = limit at hk ⊢
      rcases le_total (52 + Nat.clog 2 ((d + n - 1) / n)) limit with hmin | hmin
      · have hclog : (d + n - 1) / n ≤ 2 ^ (52 + Nat.clog 2 ((d + n - 1) / n)) :=
          le_trans (Nat.le_pow_clog (by decide) _) (pow_le_pow_right (by decide) (Nat.le_add_left _ _))
        have hceil : d ≤ n * ((d + n - 1) / n) := by
          have := Nat.div_add_mod (d + n - 1) n
          have := Nat.mod_lt (d + n - 1) hn
          omega
        rw [min_eq_left hmin]
        exact le_trans hceil (Nat.mul_le_mul_left n hclog)
      · rw [min_eq_right hmin]
        refine hsmall.trans ((pow_le_pow_right (by decide) hk).trans ?_)
        exact Nat.le_mul_of_pos_left _ hn
  have hround : 0 < roundHalfEven (n * 2 ^ doublePlaces n d) (d * 2 ^ (log2 (n / d) - 52)) := by
    have hquotient := Nat.div_pos hplaces (Nat.mul_pos hd (two_pow_pos _))
    unfold roundHalfEven
    dsimp only
    split_ifs
    · exact Nat.succ_pos _
    · exact hquotient
  unfold nearest
  rw [if_neg hn.ne']
  dsimp only
  exact div_pos (Nat.cast_pos.mpr (Nat.mul_pos hround (two_pow_pos _))) (Nat.cast_pos.mpr (two_pow_pos _))

theorem nearest_nat (n : ℕ) : nearest n 1 = roundNat n := by
  unfold nearest
  split_ifs with hn
  · rw [hn]
    rfl
  · dsimp only
    rw [Nat.div_one, one_mul]
    by_cases hlog : log2 n ≤ 52
    · have habove : log2 n - 52 = 0 := by omega
      have hsmall : n < 2 ^ 53 := (Nat.log2_lt hn).mp (by omega)
      have hround : ∀ x, roundHalfEven x 1 = x := by
        intro x
        simp [roundHalfEven, Nat.mod_one]
      have hpos : ((2 ^ doublePlaces n 1 : ℕ) : ℚ) ≠ 0 := by positivity
      rw [habove, pow_zero, hround, mul_one, Number.roundNat_of_lt hsmall, Nat.cast_mul]
      exact mul_div_cancel_right₀ _ hpos
    · have hplaces : doublePlaces n 1 = 0 := by
        unfold doublePlaces
        rw [if_pos (by omega), Nat.div_one]
        omega
      rw [hplaces, pow_zero, mul_one, Nat.cast_one, div_one]
      rfl

theorem ofRat_nat (n : ℕ) :
    ofRat n = if 2 ^ 1024 ≤ roundNat n then infinity false else num (roundNat n) := by
  have hsign : ¬ (n : ℚ) < 0 := not_lt.mpr n.cast_nonneg
  unfold ofRat
  dsimp only
  rw [Rat.num_natCast, Rat.den_natCast, Int.natAbs_natCast, nearest_nat, if_neg hsign, decide_eq_false hsign]
  have hle : (2 ^ 1024 : ℚ) ≤ roundNat n ↔ 2 ^ 1024 ≤ roundNat n := by
    exact_mod_cast Iff.rfl
  simp only [hle]

def Holds (n : ℕ) : Prop := Exact n ∧ n < 2 ^ 1024

theorem ofRat_of_holds (h : Holds n) : ofRat n = num n := by
  have hround : roundNat n = n := roundNat_eq_self_iff.mpr h.1
  rw [ofRat_nat, hround, if_neg (Nat.not_le.mpr h.2)]

theorem holds_of_lt (h : n < 2 ^ 53) : Holds n := by
  refine ⟨⟨n, 0, h, by rw [pow_zero, mul_one]⟩, ?_⟩
  apply lt_of_lt_of_le h
  apply pow_le_pow_right
  · omega
  · omega

theorem ofRat_nat_cases (n : ℕ) : ofRat n = infinity false ∨ ∃ k, Holds k ∧ ofRat n = num k := by
  rw [ofRat_nat]
  split_ifs with hlarge
  · exact .inl rfl
  · exact .inr ⟨roundNat n, ⟨exact_roundNat n, Nat.not_le.mp hlarge⟩, rfl⟩

theorem round_natCast (n : ℕ) : round (num n) = num n := by
  have hhalf : ⌊(1 / 2 : ℚ)⌋ = 0 := by norm_num
  unfold round
  dsimp only
  rw [Int.floor_natCast_add, hhalf, add_zero, Int.cast_natCast]

theorem round_mul_nat (n : ℕ) (hm : 0 < m) (hscale : Holds m) :
    round ((ofRat n).mul (ofRat m)) =
      if 2 ^ 1024 ≤ roundNat n ∨ 2 ^ 1024 ≤ roundNat (roundNat n * m) then infinity false
      else num (roundNat (roundNat n * m)) := by
  rw [ofRat_of_holds hscale, ofRat_nat n]
  by_cases hlarge : 2 ^ 1024 ≤ roundNat n
  · have hne : ¬ (m : ℚ) = 0 := Nat.cast_ne_zero.mpr hm.ne'
    have hsign : ¬ (m : ℚ) < 0 := not_lt.mpr m.cast_nonneg
    rw [if_pos hlarge, if_pos (.inl hlarge)]
    unfold mul round
    dsimp only
    rw [if_neg hne, decide_eq_false hsign]
    rfl
  · have hprod : ((roundNat n : ℚ) * (m : ℚ)) = ((roundNat n * m : ℕ) : ℚ) := (Nat.cast_mul ..).symm
    rw [if_neg hlarge]
    unfold mul
    dsimp only
    rw [hprod, ofRat_nat]
    by_cases hover : 2 ^ 1024 ≤ roundNat (roundNat n * m)
    · rw [if_pos hover, if_pos (.inr hover)]
      rfl
    · rw [if_neg hover, if_neg (not_or.mpr ⟨hlarge, hover⟩), round_natCast]

theorem num_inj_nat : num a = num b ↔ a = b := by
  rw [Double.num.injEq, Nat.cast_inj]

theorem scale_eq_iff (n : ℕ) (hm : 0 < m) (hscale : Holds m) :
    round ((ofRat n).mul (ofRat m)) = num (n * m : ℕ) ↔ Holds (n * m) := by
  rw [round_mul_nat n hm hscale]
  constructor
  · intro h
    split_ifs at h with hlarge
    have heq := num_inj_nat.mp h
    rw [not_or] at hlarge
    exact ⟨heq ▸ exact_roundNat _, heq ▸ Nat.not_le.mp hlarge.2⟩
  · rintro ⟨hexact, hlt⟩
    have hle : n ≤ n * m := Nat.le_mul_of_pos_right n hm
    have hn : roundNat n = n := roundNat_eq_self_iff.mpr (hexact.of_mul hm)
    have hprod : roundNat (n * m) = n * m := roundNat_eq_self_iff.mpr hexact
    rw [hn, hprod, if_neg]
    rw [not_or, Nat.not_le, Nat.not_le]
    exact ⟨lt_of_le_of_lt hle hlt, hlt⟩

theorem scale_eq_self_iff (n : ℕ) (hm : 4 ≤ m) (hscale : Holds m) :
    round ((ofRat n).mul (ofRat m)) = num n ↔ n = 0 := by
  rw [round_mul_nat n (by omega) hscale]
  constructor
  · intro h
    by_contra hn
    split_ifs at h with hlarge
    have heq := num_inj_nat.mp h
    have hlow := pow_log2_le_roundNat hn
    have hhigh : n < 2 ^ (log2 n + 1) := Nat.lt_log2_self
    have hprod : roundNat n * 4 ≤ roundNat n * m := Nat.mul_le_mul_left _ hm
    -- The product is two powers of two above, and rounding it loses less than one.
    have hlog : log2 n + 2 ≤ log2 (roundNat n * m) := by
      apply (le_log2 (by omega)).mpr
      rw [pow_add]
      omega
    have hround := pow_log2_le_roundNat (n := roundNat n * m) (by omega)
    have hpow : 2 ^ (log2 n + 2) ≤ 2 ^ log2 (roundNat n * m) := pow_le_pow_right (by decide) hlog
    rw [pow_succ] at hhigh
    rw [pow_add] at hpow
    omega
  · rintro rfl
    have hzero : roundNat 0 = 0 := Number.roundNat_of_lt (by decide)
    have hpow : ¬ 2 ^ 1024 ≤ 0 := Nat.not_le.mpr (by positivity)
    rw [hzero, Nat.zero_mul, hzero, if_neg (not_or.mpr ⟨hpow, hpow⟩)]

/-! ### Sums -/

/-- What adding whole numbers comes to: one that is not negative, or past the largest. -/
def Summed (x : Double) : Prop := x = nan ∨ x = infinity false ∨ ∃ k : ℕ, x = num k

def Counted (x : Double) : Prop := x = nan ∨ x = infinity false ∨ ∃ k : ℕ, 0 < k ∧ x = num k

theorem Counted.ne_zero {x : Double} (h : Counted x) : x ≠ num 0 := by
  rcases h with rfl | rfl | ⟨k, hk, rfl⟩
  · nofun
  · nofun
  · rw [Ne, Double.num.injEq, Nat.cast_eq_zero]
    omega

theorem Counted.summed {x : Double} (h : Counted x) : Summed x := by
  rcases h with h | h | ⟨k, -, h⟩
  · exact .inl h
  · exact .inr (.inl h)
  · exact .inr (.inr ⟨k, h⟩)

theorem summed_ofRat (n : ℕ) : Summed (ofRat n) := by
  rcases ofRat_nat_cases n with h | ⟨k, -, h⟩
  · exact .inr (.inl h)
  · exact .inr (.inr ⟨k, h⟩)

theorem counted_ofRat (hn : 0 < n) : Counted (ofRat n) := by
  rw [ofRat_nat]
  split_ifs
  · exact .inr (.inl rfl)
  · exact .inr (.inr ⟨roundNat n, Number.roundNat_pos hn, rfl⟩)

theorem Summed.add {a b : Double} (ha : Summed a) (hb : Counted b) : Counted (a.add b) := by
  rcases ha with rfl | rfl | ⟨k, rfl⟩
  · exact .inl rfl
  · rcases hb with rfl | rfl | ⟨m, -, rfl⟩
    · exact .inl rfl
    · exact .inr (.inl rfl)
    · exact .inr (.inl rfl)
  · rcases hb with rfl | rfl | ⟨m, hm, rfl⟩
    · exact .inl rfl
    · exact .inr (.inl rfl)
    · have hadd : Double.add (num k) (num m) = ofRat ((k + m : ℕ) : ℚ) := by
        rw [Nat.cast_add]
        rfl
      rw [hadd]
      exact counted_ofRat (by omega)

theorem summed_sub (h : a ≤ b) : Summed ((ofRat b).sub (ofRat a)) := by
  have hround := roundNat_mono h
  rw [ofRat_nat a, ofRat_nat b]
  by_cases hb : 2 ^ 1024 ≤ roundNat b
  · rw [if_pos hb]
    split_ifs
    · exact .inl rfl
    · exact .inr (.inl rfl)
  · have ha : ¬ 2 ^ 1024 ≤ roundNat a := fun ha => hb (le_trans ha hround)
    have hsub : sub (num (roundNat b)) (num (roundNat a)) = ofRat ((roundNat b - roundNat a : ℕ) : ℚ) := by
      rw [Nat.cast_sub hround, sub_eq_add_neg]
      rfl
    rw [if_neg ha, if_neg hb, hsub]
    exact summed_ofRat _

theorem counted_foldl {α : Type*} (f : α → Double) {xs : List α} (hf : ∀ x ∈ xs, Counted (f x))
    {a : Double} (ha : Counted a) : Counted (xs.foldl (fun a x => a.add (f x)) a) := by
  induction xs generalizing a with
  | nil => exact ha
  | cons x xs ih =>
    rw [forall_mem_cons] at hf
    exact ih hf.2 (ha.summed.add hf.1)

theorem counted_sumOf {α : Type*} (f : α → Double) {xs : List α} (hne : xs ≠ [])
    (hf : ∀ x ∈ xs, Counted (f x)) : Counted (sumOf f xs) := by
  cases xs with
  | nil => exact absurd rfl hne
  | cons x xs =>
    rw [forall_mem_cons] at hf
    have hzero : Summed (num 0) := .inr (.inr ⟨0, by rw [Nat.cast_zero]⟩)
    exact counted_foldl f hf.2 (hzero.add hf.1)

theorem zero_add_ofRat (n : ℕ) : ((num 0).add (ofRat n)).add (num 0) = ofRat n := by
  rcases ofRat_nat_cases n with h | ⟨k, hk, h⟩
  · rw [h]
    rfl
  · have hkeep : ofRat (k : ℚ) = num k := ofRat_of_holds hk
    have hleft : add (num 0) (num k) = num k := by
      unfold add
      dsimp only
      rw [zero_add, hkeep]
    have hright : add (num k) (num 0) = num k := by
      unfold add
      dsimp only
      rw [add_zero, hkeep]
    rw [h, hleft, hright]

end Double

/-!
### Quantities

A decimal number and a unit, as a text.
-/

def indexOf (text pattern : List Char) : ℤ :=
  ((List.range (text.length + 1)).find? fun i => pattern.isPrefixOf (text.drop i)).elim (-1) Int.ofNat

/-- `^(\d+(?:\.\d+)?)\s*(unit)?$`: the number, and the unit or nothing. -/
def readQuantity (unit : RegularExpression Char) (s : List Char) : Option (List Char × List Char) :=
  let whole := s.takeWhile isDigit
  let rest := s.dropWhile isDigit
  let fraction := match rest with
    | '.' :: t => if t.takeWhile isDigit = [] then [] else '.' :: t.takeWhile isDigit
    | _ => []
  let name := (rest.drop fraction.length).dropWhile isSpace
  if whole ≠ [] ∧ (optionally unit).rmatch name = true then some (whole ++ fraction, name) else none

variable {unit : RegularExpression Char} {digits name : List Char}

def StartsUnit (name : List Char) : Prop :=
  (name.head?.all fun ch => !ch.isDigit && ch != '.' && !isSpace ch) = true

theorem StartsUnit.head {ch : Char} (h : StartsUnit (ch :: name)) :
    ch.isDigit = false ∧ ch ≠ '.' ∧ isSpace ch = false := by
  simpa [StartsUnit, and_assoc] using h

theorem takeWhile_digits (hdigits : ∀ ch ∈ digits, ch.isDigit = true)
    (hname : ∀ ch ∈ name.head?, ch.isDigit = false) :
    (digits ++ name).takeWhile isDigit = digits ∧ (digits ++ name).dropWhile isDigit = name := by
  rw [takeWhile_append_of_pos hdigits, dropWhile_append_of_pos hdigits]
  cases name with
  | nil => exact ⟨append_nil digits, rfl⟩
  | cons ch name =>
    have hch : ¬ ch.isDigit = true := by
      rw [hname ch rfl]
      decide
    rw [takeWhile_cons_of_neg hch, dropWhile_cons_of_neg hch, append_nil]
    exact ⟨rfl, rfl⟩

theorem readQuantity_whole (hne : digits ≠ []) (hdigits : ∀ ch ∈ digits, ch.isDigit = true)
    (hname : StartsUnit name) :
    readQuantity unit (digits ++ name) =
      if (optionally unit).rmatch name = true then some (digits, name) else none := by
  have hhead : ∀ ch ∈ name.head?, ch.isDigit = false := by
    intro ch hch
    cases name with
    | nil => cases hch
    | cons c name =>
      obtain rfl : c = ch := some.inj hch
      exact hname.head.1
  obtain ⟨htake, hdrop⟩ := takeWhile_digits hdigits hhead
  have hspace : name.dropWhile isSpace = name := by
    cases name with
    | nil => rfl
    | cons ch name =>
      apply dropWhile_cons_of_neg
      rw [hname.head.2.2]
      decide
  unfold readQuantity
  dsimp only
  rw [htake, hdrop]
  split
  · exact absurd rfl hname.head.2.1
  · rw [length_nil, drop_zero, hspace, append_nil]
    simp [hne]

end IncusCloud.Lib
