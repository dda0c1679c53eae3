import Mathlib.Data.Nat.ModEq

namespace Ring

variable {A : Type} {cap : Nat}

-- the last `cap` writes, each in the slot of its position, and nothing in the slots never written
structure Holds (written : List A) (blank : A) (slots : Vector A cap) : Prop where
  recent : ∀ i (h : i < written.length), written.length ≤ i + cap →
    ∀ k : Fin cap, k.val = i % cap → slots[k] = written[i]
  blank : ∀ k : Fin cap, written.length ≤ k.val → slots[k] = blank

theorem mod_ne_of_lt {i n : Nat} (hi : i < n) (hn : n < i + cap) : i % cap ≠ n % cap := by
  intro h
  have hdvd : cap ∣ n - i := (Nat.modEq_iff_dvd' (Nat.le_of_lt hi)).mp h
  exact absurd (Nat.le_of_dvd (by omega) hdvd) (by omega)

theorem holds_replicate (blank : A) : Holds [] blank (Vector.replicate cap blank) where
  recent := fun i h => absurd h (Nat.not_lt_zero i)
  blank := fun k _ => by rw [Fin.getElem_fin, Vector.getElem_replicate]

theorem Holds.write {written : List A} {blank : A} {slots : Vector A cap}
    (h : Holds written blank slots) (x : A) (hlt : written.length % cap < cap) :
    Holds (written ++ [x]) blank (slots.set (written.length % cap) x hlt) where
  recent := by
    intro i hi hrecent k hk
    rw [List.length_append, List.length_singleton] at hi hrecent
    rw [Fin.getElem_fin, Vector.getElem_set]
    rcases Nat.lt_or_eq_of_le (Nat.le_of_lt_succ hi) with hold | rfl
    · have hne : written.length % cap ≠ k.val :=
        hk ▸ (mod_ne_of_lt hold (by omega)).symm
      rw [if_neg hne, List.getElem_append_left hold]
      exact h.recent i hold (by omega) k hk
    · rw [if_pos hk.symm, List.getElem_concat_length rfl]
  blank := by
    intro k hk
    rw [List.length_append, List.length_singleton] at hk
    have hsmall : written.length < cap := by have := k.isLt; omega
    have hne : written.length % cap ≠ k.val := by
      rw [Nat.mod_eq_of_lt hsmall]
      omega
    rw [Fin.getElem_fin, Vector.getElem_set, if_neg hne]
    exact h.blank k (by omega)

end Ring
