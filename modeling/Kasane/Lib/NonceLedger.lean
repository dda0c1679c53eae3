import Mathlib.Data.List.Nodup

namespace NonceLedger

variable {α : Type} {floor floor' : α → Nat} {xs ys : List (α × Nat)}

-- one counter for each account, and everything spent lies below its account's counter
structure Spent (floor : α → Nat) (xs : List (α × Nat)) : Prop where
  below : ∀ x ∈ xs, x.2 < floor x.1
  once : xs.Nodup

theorem spent_nil (floor : α → Nat) : Spent floor [] :=
  ⟨fun _ h => absurd h List.not_mem_nil, List.nodup_nil⟩

theorem Spent.raise (h : Spent floor xs) (hle : ∀ x ∈ xs, floor x.1 ≤ floor' x.1) :
    Spent floor' xs :=
  ⟨fun x hx => Nat.lt_of_lt_of_le (h.below x hx) (hle x hx), h.once⟩

theorem Spent.append (h : Spent floor xs) (hle : ∀ x ∈ xs, floor x.1 ≤ floor' x.1)
    (hys : Spent floor' ys) (hfresh : ∀ y ∈ ys, floor y.1 ≤ y.2) : Spent floor' (xs ++ ys) := by
  refine ⟨?_, List.nodup_append.mpr ⟨h.once, hys.once, ?_⟩⟩
  · intro x hx
    rcases List.mem_append.mp hx with hx | hx
    · exact (h.raise hle).below x hx
    · exact hys.below x hx
  · rintro x hx y hy rfl
    exact absurd (hfresh x hy) (Nat.not_le.mpr (h.below x hx))

theorem Spent.spend {x : α × Nat} (h : Spent floor xs) (hle : ∀ y ∈ xs, floor y.1 ≤ floor' y.1)
    (hfresh : floor x.1 ≤ x.2) (hspent : x.2 < floor' x.1) : Spent floor' (xs ++ [x]) := by
  refine h.append hle ⟨?_, List.nodup_singleton x⟩ ?_
  · intro y hy
    rwa [List.mem_singleton.mp hy]
  · intro y hy
    rwa [List.mem_singleton.mp hy]

theorem nodup_of_keys {β γ δ : Type} {l : List β} {key : β → γ} {name : β → δ}
    (h : (l.map key).Nodup) (hname : ∀ x ∈ l, ∀ y ∈ l, name x = name y → key x = key y) :
    (l.map name).Nodup := by
  induction l with
  | nil => exact List.nodup_nil
  | cons x l ih =>
      obtain ⟨hx, hl⟩ := List.nodup_cons.mp h
      refine List.nodup_cons.mpr ⟨?_, ih hl (fun y hy z hz => ?_)⟩
      · intro hmem
        obtain ⟨y, hy, heq⟩ := List.mem_map.mp hmem
        have hkey := hname x List.mem_cons_self y (List.mem_cons_of_mem x hy) heq.symm
        exact hx (hkey ▸ List.mem_map_of_mem hy)
      · exact hname y (List.mem_cons_of_mem x hy) z (List.mem_cons_of_mem x hz)

end NonceLedger
