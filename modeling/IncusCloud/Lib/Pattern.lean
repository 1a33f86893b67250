import Mathlib.Computability.RegularExpressions

/-!
# Regular expressions of characters

Classes of characters and optional parts, over Mathlib's regular expressions: what a program tests a
text against from its first character to its last.
-/

namespace IncusCloud.Lib

open RegularExpression

/-- `[…]`: one of these characters. -/
def oneOf (cs : List Char) : RegularExpression Char := (cs.map RegularExpression.char).foldr (· + ·) 0

/-- `\d`. -/
def digit : RegularExpression Char := oneOf "0123456789".toList

def optionally (p : RegularExpression Char) : RegularExpression Char := p + 1

variable {p q : RegularExpression Char} {s : List Char}

theorem rmatch_oneOf {cs : List Char} : (oneOf cs).rmatch s = true ↔ ∃ ch ∈ cs, s = [ch] := by
  induction cs with
  | nil =>
    show rmatch 0 s = true ↔ _
    simp [zero_rmatch]
  | cons ch cs ih =>
    show (RegularExpression.char ch + oneOf cs).rmatch s = true ↔ _
    rw [add_rmatch_iff, char_rmatch_iff, ih]
    simp

theorem rmatch_optionally : (optionally p).rmatch s = true ↔ p.rmatch s = true ∨ s = [] := by
  unfold optionally
  rw [add_rmatch_iff, one_rmatch_iff]

theorem rmatch_char_mul {ch : Char} :
    (RegularExpression.char ch * p).rmatch s = true ↔ ∃ t, s = ch :: t ∧ p.rmatch t = true := by
  rw [mul_rmatch_iff]
  constructor
  · rintro ⟨x, t, rfl, hx, ht⟩
    rw [(char_rmatch_iff ch x).mp hx]
    exact ⟨t, rfl, ht⟩
  · rintro ⟨t, rfl, ht⟩
    exact ⟨[ch], t, rfl, (char_rmatch_iff ch [ch]).mpr rfl, ht⟩

end IncusCloud.Lib
