import Mathlib.Algebra.BigOperators.Group.Finset.Basic
import Mathlib.Algebra.Order.BigOperators.Group.Finset
import Mathlib.Data.Fintype.BigOperators
import Mathlib.Logic.Function.Basic

namespace Holdings

variable {α : Type} [Fintype α]

-- what all the holders of one asset hold together
def total (held : α → Nat) : Nat := ∑ x, held x

theorem held_le_total (held : α → Nat) (x : α) : held x ≤ total held :=
  Finset.single_le_sum (fun _ _ => Nat.zero_le _) (Finset.mem_univ x)

theorem total_zero : total (fun _ : α => 0) = 0 := Finset.sum_const_zero

variable [DecidableEq α]

theorem total_update (held : α → Nat) (x : α) (n : Nat) :
    total (Function.update held x n) + held x = total held + n := by
  have hsplit := Finset.add_sum_erase Finset.univ held (Finset.mem_univ x)
  have hsplit' := Finset.add_sum_erase Finset.univ (Function.update held x n) (Finset.mem_univ x)
  have hrest : ∑ y ∈ Finset.univ.erase x, Function.update held x n y =
      ∑ y ∈ Finset.univ.erase x, held y := by
    refine Finset.sum_congr rfl (fun y hy => ?_)
    exact Function.update_of_ne (Finset.ne_of_mem_erase hy) _ _
  rw [hrest, Function.update_self] at hsplit'
  rw [total, total, ← hsplit', ← hsplit]
  omega

theorem total_debit {held : α → Nat} {x : α} {n : Nat} (h : n ≤ held x) :
    total (Function.update held x (held x - n)) + n = total held := by
  have hupdate := total_update held x (held x - n)
  omega

theorem total_credit (held : α → Nat) (x : α) (n : Nat) :
    total (Function.update held x (held x + n)) = total held + n := by
  have hupdate := total_update held x (held x + n)
  omega

end Holdings
