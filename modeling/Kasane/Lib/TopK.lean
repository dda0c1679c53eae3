import Mathlib.Data.List.MinMax
import Mathlib.Data.List.Sort
import Mathlib.Order.Lattice

namespace TopK

variable {α : Type} [LinearOrder α]

def push (k : Nat) (heap : List α) (x : α) : List α :=
  if heap.length < k then x :: heap
  else
    match heap.min? with
    | none => heap
    | some worst => if x > worst then x :: heap.erase worst else heap

def best (xs : List α) : List α := xs.mergeSort (fun a b => decide (b ≤ a))

theorem best_perm (xs : List α) : (best xs).Perm xs := List.mergeSort_perm _ _

theorem best_sorted (xs : List α) : (best xs).Pairwise (· ≥ ·) := by
  have h := @List.pairwise_mergeSort _ (fun a b : α => decide (b ≤ a))
    (fun a b c hab hbc => by
      rw [decide_eq_true_iff] at *
      exact hbc.trans hab)
    (fun a b => by
      rw [Bool.or_eq_true, decide_eq_true_iff, decide_eq_true_iff]
      exact le_total b a) xs
  exact h.imp of_decide_eq_true

theorem best_congr {xs ys : List α} (h : xs.Perm ys) : best xs = best ys :=
  (((best_perm xs).trans h).trans (best_perm ys).symm).eq_of_pairwise' (best_sorted xs)
    (best_sorted ys)

-- the heap holds the first `k` of what was met; nothing that was left out beats it
structure Holds (k : Nat) (met heap rest : List α) : Prop where
  split : met.Perm (heap ++ rest)
  filled : heap.length = min k met.length
  beaten : ∀ kept ∈ heap, ∀ left ∈ rest, left ≤ kept

theorem best_append {heap rest : List α} (h : ∀ kept ∈ heap, ∀ left ∈ rest, left ≤ kept) :
    best (heap ++ rest) = best heap ++ best rest := by
  refine List.Perm.eq_of_pairwise' (r := (· ≥ ·)) (best_sorted _) ?_ ?_
  · rw [List.pairwise_append]
    refine ⟨best_sorted heap, best_sorted rest, fun kept hkept left hleft => ?_⟩
    exact h kept ((best_perm heap).mem_iff.mp hkept) left ((best_perm rest).mem_iff.mp hleft)
  · exact (best_perm _).trans ((best_perm heap).append (best_perm rest)).symm

theorem Holds.best_eq {k : Nat} {met heap rest : List α} (h : Holds k met heap rest) :
    best heap = (best met).take k := by
  have hlength : (best heap).length = min k met.length := by
    rw [(best_perm heap).length_eq, h.filled]
  rw [best_congr h.split, best_append h.beaten]
  rcases Nat.le_total k met.length with hk | hk
  · rw [Nat.min_eq_left hk] at hlength
    rw [List.take_left' hlength]
  · have hrest : rest = [] := by
      have hsum := h.split.length_eq
      have hfilled := h.filled
      rw [List.length_append] at hsum
      rw [Nat.min_eq_right hk] at hfilled
      exact List.eq_nil_of_length_eq_zero (by omega)
    rw [Nat.min_eq_right hk] at hlength
    have hnil : best ([] : List α) = [] := List.mergeSort_nil
    rw [hrest, hnil, List.append_nil, List.take_of_length_le]
    exact hlength.le.trans hk

theorem Holds.push {k : Nat} {met heap rest : List α} (h : Holds k met heap rest) (x : α) :
    ∃ rest', Holds k (met ++ [x]) (push k heap x) rest' := by
  have hsum := h.split.length_eq
  have hfilled := h.filled
  rw [List.length_append] at hsum
  have hskip (hroom : ¬ heap.length < k) (hx : ∀ kept ∈ heap, x ≤ kept) :
      Holds k (met ++ [x]) heap (x :: rest) := by
    refine ⟨?_, ?_, ?_⟩
    · exact (List.perm_append_singleton x met).trans
        ((h.split.cons x).trans List.perm_middle.symm)
    · rw [List.length_append, List.length_singleton]
      omega
    · intro kept hkept left hleft
      rcases List.mem_cons.mp hleft with rfl | hleft
      · exact hx kept hkept
      · exact h.beaten kept hkept left hleft
  rw [TopK.push]
  by_cases hroom : heap.length < k
  · rw [if_pos hroom]
    have hrest : rest = [] := List.eq_nil_of_length_eq_zero (by omega)
    refine ⟨[], ?_, ?_, ?_⟩
    · rw [List.append_nil]
      refine (List.perm_append_singleton x met).trans (List.Perm.cons x ?_)
      simpa [hrest] using h.split
    · rw [List.length_cons, List.length_append, List.length_singleton]
      omega
    · intro kept _ left hleft
      exact absurd hleft List.not_mem_nil
  · rw [if_neg hroom]
    cases hmin : heap.min? with
    | none =>
        obtain rfl := List.min?_eq_none_iff.mp hmin
        exact ⟨x :: rest, hskip hroom (fun kept hkept => absurd hkept List.not_mem_nil)⟩
    | some worst =>
        obtain ⟨hworst, hle⟩ := List.min?_eq_some_iff.mp hmin
        by_cases hbeats : x > worst
        · have hperm := List.perm_cons_erase hworst
          have herase := List.length_erase_of_mem hworst
          have hpos := List.length_pos_of_mem hworst
          simp only [if_pos hbeats]
          refine ⟨worst :: rest, ?_, ?_, ?_⟩
          · refine (List.perm_append_singleton x met).trans ?_
            rw [List.cons_append]
            refine List.Perm.cons x (h.split.trans ?_)
            exact (hperm.append_right rest).trans List.perm_middle.symm
          · rw [List.length_cons, List.length_append, List.length_singleton, herase]
            omega
          · intro kept hkept left hleft
            have hkept' : worst ≤ kept := by
              rcases List.mem_cons.mp hkept with rfl | hkept
              · exact hbeats.le
              · exact hle kept (List.mem_of_mem_erase hkept)
            rcases List.mem_cons.mp hleft with rfl | hleft
            · exact hkept'
            · exact (h.beaten worst hworst left hleft).trans hkept'
        · simp only [if_neg hbeats]
          exact ⟨x :: rest, hskip hroom (fun kept hkept => (not_lt.mp hbeats).trans (hle kept hkept))⟩

theorem holds_foldl {k : Nat} {met heap rest : List α} (h : Holds k met heap rest) (xs : List α) :
    ∃ rest', Holds k (met ++ xs) (xs.foldl (TopK.push k) heap) rest' := by
  induction xs generalizing met heap rest with
  | nil => exact ⟨rest, by rwa [List.append_nil]⟩
  | cons x xs ih =>
      obtain ⟨rest', h'⟩ := h.push x
      obtain ⟨rest'', h''⟩ := ih h'
      exact ⟨rest'', by rwa [List.append_assoc] at h''⟩

theorem best_foldl_push (k : Nat) (xs : List α) :
    best (xs.foldl (TopK.push k) []) = (best xs).take k := by
  have hstart : Holds k ([] : List α) [] [] :=
    ⟨.nil, (Nat.min_eq_right (Nat.zero_le k)).symm, fun _ h => absurd h List.not_mem_nil⟩
  obtain ⟨rest, h⟩ := holds_foldl hstart xs
  exact h.best_eq

end TopK
