import Mathlib.Data.List.Range

namespace Paging

variable {C I E : Type}

-- one page: from a cursor, or from the start, and with a limit on the items
abbrev Fetch (C I E : Type) := Option C → Nat → Except E (List I × Option C)

-- the pages fetched one after the other, each from where the one before it stopped, up to a last
inductive Walk (fetch : Fetch C I E) : Option C → List Nat → List I → Prop
  | last {cursor : Option C} {limit : Nat} {items : List I}
      (fetched : fetch cursor limit = .ok (items, none)) : Walk fetch cursor [limit] items
  | more {cursor : Option C} {limit : Nat} {limits : List Nat} {items rest : List I} {next : C}
      (fetched : fetch cursor limit = .ok (items, some next))
      (walk : Walk fetch (some next) limits rest) :
      Walk fetch cursor (limit :: limits) (items ++ rest)

-- every page takes its items from the front of what is left, and makes the work smaller
structure Resumes (fetch : Fetch C I E) (reach : Option C → Prop) (left : Option C → List I)
    (work : Option C → Nat) : Prop where
  last : ∀ cursor limit items, reach cursor → 1 ≤ limit → fetch cursor limit = .ok (items, none) →
    items = left cursor
  more : ∀ cursor limit items next, reach cursor → 1 ≤ limit →
    fetch cursor limit = .ok (items, some next) →
      reach (some next) ∧ items ++ left (some next) = left cursor ∧ work (some next) < work cursor

variable {fetch : Fetch C I E} {reach : Option C → Prop} {left : Option C → List I}
  {work : Option C → Nat} {cursor : Option C}

theorem Resumes.items (h : Resumes fetch reach left work) {limits : List Nat} {items : List I}
    (hreach : reach cursor) (hlimits : ∀ limit ∈ limits, 1 ≤ limit)
    (walk : Walk fetch cursor limits items) : items = left cursor := by
  induction walk with
  | last fetched => exact h.last _ _ _ hreach (hlimits _ List.mem_cons_self) fetched
  | more fetched _ ih =>
      obtain ⟨hnext, heq, -⟩ := h.more _ _ _ _ hreach (hlimits _ List.mem_cons_self) fetched
      rw [ih hnext (fun limit hmem => hlimits limit (List.mem_cons_of_mem _ hmem)), heq]

theorem Resumes.ends (h : Resumes fetch reach left work) {limits : Nat → Nat}
    (hlimits : ∀ i, 1 ≤ limits i)
    (hserves : ∀ cursor i, reach cursor → ∃ page, fetch cursor (limits i) = .ok page)
    (hreach : reach cursor) (i : Nat) :
    ∃ n items, Walk fetch cursor ((List.range' i n).map limits) items := by
  induction hwork : work cursor using Nat.strong_induction_on generalizing cursor i with
  | _ w ih =>
      obtain ⟨⟨items, next⟩, hfetched⟩ := hserves cursor i hreach
      cases next with
      | none => exact ⟨1, items, .last hfetched⟩
      | some next =>
          obtain ⟨hnext, -, hless⟩ := h.more _ _ _ _ hreach (hlimits i) hfetched
          obtain ⟨n, rest, walk⟩ := ih (work (some next)) (hwork ▸ hless) hnext (i + 1) rfl
          exact ⟨n + 1, items ++ rest, .more hfetched walk⟩

end Paging
