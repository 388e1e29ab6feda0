import Mathlib.Tactic

/-!
Arithmetic in 64-bit two's complement: a result is exact when it fits, and is off by
a multiple of 2^64 otherwise.
-/

namespace Signed64

def InRange (n : Int) : Prop := -9223372036854775808 ≤ n ∧ n ≤ 9223372036854775807

/-- What a 64-bit register holds of a result. -/
def wrap (n : Int) : Int := n.bmod (2 ^ 64)

theorem wrap_of_inRange {n : Int} (h : InRange n) : wrap n = n := by
  obtain ⟨hlow, hhigh⟩ := h
  exact Int.bmod_eq_of_le (by norm_num; omega) (by norm_num; omega)

theorem inRange_toInt (a : Int64) : InRange a.toInt := by
  have hlow := a.le_toInt
  have hhigh := a.toInt_lt
  constructor <;> omega

theorem toInt_add {a b : Int64} (h : InRange (a.toInt + b.toInt)) :
    (a + b).toInt = a.toInt + b.toInt := by
  rw [Int64.toInt_add]
  exact wrap_of_inRange h

theorem toInt_mul {a b : Int64} (h : InRange (a.toInt * b.toInt)) :
    (a * b).toInt = a.toInt * b.toInt := by
  rw [Int64.toInt_mul]
  exact wrap_of_inRange h

end Signed64
