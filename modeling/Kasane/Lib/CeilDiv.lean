import Kasane.Lib.Word
import Mathlib.Algebra.Order.Floor.Div
import Mathlib.Tactic.Ring

namespace Word

variable {max a b d : Nat}

def saturatingCeilDiv (max a d : Nat) : Nat := saturatingAdd max a (d - 1) / d

theorem saturatingCeilDiv_le : saturatingCeilDiv max a d ≤ max / d :=
  Nat.div_le_div_right (min_le_right _ _)

theorem saturatingMul_of_le (h : a * b ≤ max) : saturatingMul max a b = a * b := min_eq_left h

-- rounding up saturates exactly when the quotient does not fit
theorem saturatingCeilDiv_of_le (hd : 0 < d) (h : a ≤ max / d * d) :
    saturatingCeilDiv max a d = a ⌈/⌉ d := by
  have hfloor := Nat.div_mul_le_self max d
  rw [saturatingCeilDiv, saturatingAdd, Nat.ceilDiv_eq_add_pred_div]
  by_cases hfits : a + (d - 1) ≤ max
  · rw [min_eq_left hfits, Nat.add_sub_assoc hd]
  · rw [min_eq_right (by omega)]
    refine le_antisymm (Nat.div_le_div_right (by omega)) (Nat.le_of_lt_succ ?_)
    rw [Nat.div_lt_iff_lt_mul hd, Nat.succ_mul]
    omega

theorem le_saturatingCeilDiv_mul_iff (hd : 0 < d) :
    a * b ≤ saturatingCeilDiv max (saturatingMul max a b) d * d ↔ a * b ≤ max / d * d := by
  constructor
  · intro h
    exact h.trans (Nat.mul_le_mul_right d saturatingCeilDiv_le)
  · intro h
    rw [saturatingMul_of_le (h.trans (Nat.div_mul_le_self max d)), saturatingCeilDiv_of_le hd h]
    have hle := le_smul_ceilDiv (b := a * b) hd
    rwa [smul_eq_mul, Nat.mul_comm d] at hle

end Word
