import Mathlib.Data.List.Basic
import Mathlib.Tactic.Common

inductive Forest (α β : Type) where
  | nil
  | node (label : α) (children rest : Forest α β)
  | leaf (label : β) (rest : Forest α β)
deriving Repr

namespace Forest

variable {α β : Type}

-- the labels in pre-order, each under the positions that lead to it: `path` leads to the forest
-- and `next` is the position of its first tree
def listed (path : List Nat) (next : Nat) : Forest α β → List (List Nat × (α ⊕ β))
  | nil => []
  | node label children rest =>
      (path ++ [next], .inl label) ::
        (listed (path ++ [next]) 0 children ++ listed path (next + 1) rest)
  | leaf label rest => (path ++ [next], .inr label) :: listed path (next + 1) rest

def size : Forest α β → Nat
  | nil => 0
  | node _ children rest => children.size + rest.size + 1
  | leaf _ rest => rest.size + 1

def labelAt : Forest α β → List Nat → Option (α ⊕ β)
  | nil, _ => none
  | _, [] => none
  | node label children rest, position :: path =>
      match position, path with
      | 0, [] => some (.inl label)
      | 0, path => children.labelAt path
      | position + 1, path => rest.labelAt (position :: path)
  | leaf label rest, position :: path =>
      match position, path with
      | 0, [] => some (.inr label)
      | 0, _ => none
      | position + 1, path => rest.labelAt (position :: path)

@[simp] theorem labelAt_nil (forest : Forest α β) : forest.labelAt [] = none := by
  cases forest <;> rfl

theorem length_listed (path : List Nat) (next : Nat) (forest : Forest α β) :
    (forest.listed path next).length = forest.size := by
  induction forest generalizing path next with
  | nil => rfl
  | node label children rest ihChildren ihRest =>
      simp [listed, size, ihChildren, ihRest]
  | leaf label rest ihRest => simp [listed, size, ihRest]

theorem mem_listed_form {path : List Nat} {next : Nat} {forest : Forest α β}
    {entry : List Nat × (α ⊕ β)} (h : entry ∈ forest.listed path next) :
    ∃ position deeper, entry.1 = path ++ position :: deeper ∧ next ≤ position := by
  induction forest generalizing path next with
  | nil => simp [listed] at h
  | node label children rest ihChildren ihRest =>
      simp only [listed, List.mem_cons, List.mem_append] at h
      rcases h with rfl | h | h
      · exact ⟨next, [], rfl, Nat.le_refl _⟩
      · obtain ⟨position, deeper, hid, -⟩ := ihChildren h
        exact ⟨next, position :: deeper, by simp [hid], Nat.le_refl _⟩
      · obtain ⟨position, deeper, hid, hle⟩ := ihRest h
        exact ⟨position, deeper, hid, Nat.le_of_succ_le hle⟩
  | leaf label rest ihRest =>
      simp only [listed, List.mem_cons] at h
      rcases h with rfl | h
      · exact ⟨next, [], rfl, Nat.le_refl _⟩
      · obtain ⟨position, deeper, hid, hle⟩ := ihRest h
        exact ⟨position, deeper, hid, Nat.le_of_succ_le hle⟩

theorem append_cons_lt {path deeper deeper' : List Nat} {position position' : Nat}
    (h : position < position') : path ++ position :: deeper < path ++ position' :: deeper' :=
  List.append_left_lt (List.cons_lt_cons_iff.mpr (.inl h))

theorem lt_of_lt_append {id path : List Nat} {position position' : Nat}
    (hid : id < path ++ [position]) (h : position ≤ position') : id < path ++ [position'] := by
  rcases Nat.lt_or_eq_of_le h with h | rfl
  · exact List.lt_trans hid (append_cons_lt h)
  · exact hid

theorem lt_append_cons (path deeper : List Nat) (position : Nat) :
    path < path ++ position :: deeper := by
  have h : path ++ [] < path ++ position :: deeper :=
    List.append_left_lt (List.nil_lt_cons position deeper)
  rwa [List.append_nil] at h

theorem lt_mem_listed {path : List Nat} {next : Nat} {forest : Forest α β}
    {entry : List Nat × (α ⊕ β)} (h : entry ∈ forest.listed path next) : path < entry.1 := by
  obtain ⟨position, deeper, hid, -⟩ := mem_listed_form h
  rw [hid]
  exact lt_append_cons path deeper position

theorem lt_mem_listed_succ {path deeper : List Nat} {next : Nat} {forest : Forest α β}
    {entry : List Nat × (α ⊕ β)} (h : entry ∈ forest.listed path (next + 1)) :
    path ++ next :: deeper < entry.1 := by
  obtain ⟨position, deeper', hid, hle⟩ := mem_listed_form h
  rw [hid]
  exact append_cons_lt hle

theorem listed_sorted (path : List Nat) (next : Nat) (forest : Forest α β) :
    (forest.listed path next).Pairwise (fun x y => x.1 < y.1) := by
  induction forest generalizing path next with
  | nil => exact List.Pairwise.nil
  | node label children rest ihChildren ihRest =>
      rw [listed, List.pairwise_cons, List.pairwise_append]
      refine ⟨fun entry h => ?_, ihChildren _ _, ihRest _ _, fun below hbelow after hafter => ?_⟩
      · rcases List.mem_append.mp h with h | h
        · exact lt_mem_listed h
        · exact lt_mem_listed_succ h
      · obtain ⟨position, deeper, hid, -⟩ := mem_listed_form hbelow
        rw [hid, List.append_assoc]
        exact lt_mem_listed_succ hafter
  | leaf label rest ihRest =>
      rw [listed, List.pairwise_cons]
      exact ⟨fun entry h => lt_mem_listed_succ h, ihRest _ _⟩

theorem listed_nodup (path : List Nat) (next : Nat) (forest : Forest α β) :
    ((forest.listed path next).map Prod.fst).Nodup := by
  rw [List.nodup_iff_pairwise_ne, List.pairwise_map]
  refine (listed_sorted path next forest).imp fun h heq => ?_
  rw [heq] at h
  exact List.lt_irrefl _ h

theorem notMem_listed_of_lt (path deeper : List Nat) {next position : Nat} (label : α ⊕ β)
    (forest : Forest α β) (h : position < next) :
    (path ++ position :: deeper, label) ∉ forest.listed path next := by
  intro hmem
  obtain ⟨position', deeper', hid, hle⟩ := mem_listed_form hmem
  have heq := List.append_cancel_left hid
  injection heq with hposition
  omega

theorem notMem_listed_self (path : List Nat) (next : Nat) (label : α ⊕ β)
    (forest : Forest α β) : (path, label) ∉ forest.listed path next := by
  intro hmem
  exact List.lt_irrefl _ (lt_mem_listed hmem)

theorem notMem_listed_below (path deeper : List Nat) (next : Nat) {last position : Nat}
    (label : α ⊕ β) (forest : Forest α β) (h : last ≠ position) :
    (path ++ position :: deeper, label) ∉ forest.listed (path ++ [last]) next := by
  intro hmem
  obtain ⟨position', deeper', hid, -⟩ := mem_listed_form hmem
  rw [List.append_assoc] at hid
  have heq := List.append_cancel_left hid
  injection heq with hposition
  exact h hposition.symm

theorem mem_listed_iff (path : List Nat) (next position : Nat) (deeper : List Nat)
    (label : α ⊕ β) (forest : Forest α β) :
    (path ++ (next + position) :: deeper, label) ∈ forest.listed path next ↔
      forest.labelAt (position :: deeper) = some label := by
  induction forest generalizing path next position deeper with
  | nil => simp [listed, labelAt]
  | node tag children rest ihChildren ihRest =>
      rw [listed, List.mem_cons, List.mem_append]
      cases position with
      | zero =>
          have hrest := notMem_listed_of_lt path deeper label rest (Nat.lt_succ_self next)
          cases deeper with
          | nil =>
              have hbelow := notMem_listed_self (path ++ [next]) 0 label children
              simp [labelAt, hrest, hbelow, eq_comm]
          | cons position deeper =>
              have hchildren := ihChildren (path ++ [next]) 0 position deeper
              rw [List.append_assoc, Nat.zero_add] at hchildren
              simpa [labelAt, hrest] using hchildren
      | succ position =>
          have hbelow := notMem_listed_below path deeper 0 label children
            (Nat.ne_of_lt (Nat.lt_add_of_pos_right (n := next) (Nat.succ_pos position)))
          have hrest := ihRest path (next + 1) position deeper
          rw [Nat.add_right_comm, Nat.add_assoc] at hrest
          simpa [labelAt, hbelow] using hrest
  | leaf tag rest ihRest =>
      rw [listed, List.mem_cons]
      cases position with
      | zero =>
          have hrest := notMem_listed_of_lt path deeper label rest (Nat.lt_succ_self next)
          cases deeper with
          | nil => simp [labelAt, hrest, eq_comm]
          | cons position deeper => simp [labelAt, hrest]
      | succ position =>
          have hrest := ihRest path (next + 1) position deeper
          rw [Nat.add_right_comm, Nat.add_assoc] at hrest
          simpa [labelAt] using hrest

theorem labelAt_parent {forest : Forest α β} {path : List Nat} {position : Nat} {label : α ⊕ β}
    (h : forest.labelAt (path ++ [position]) = some label) :
    path = [] ∨ ∃ parent, forest.labelAt path = some (.inl parent) := by
  induction forest generalizing path with
  | nil => simp [labelAt] at h
  | node tag children rest ihChildren ihRest =>
      cases path with
      | nil => exact .inl rfl
      | cons first path =>
          right
          cases first with
          | zero =>
              cases path with
              | nil => exact ⟨tag, rfl⟩
              | cons second path =>
                  rcases @ihChildren (second :: path) h with hnil | hparent
                  · exact absurd hnil (List.cons_ne_nil _ _)
                  · exact hparent
          | succ first =>
              rcases @ihRest (first :: path) h with hnil | hparent
              · exact absurd hnil (List.cons_ne_nil _ _)
              · exact hparent
  | leaf tag rest ihRest =>
      cases path with
      | nil => exact .inl rfl
      | cons first path =>
          right
          cases first with
          | zero => simp [labelAt] at h
          | succ first =>
              rcases @ihRest (first :: path) h with hnil | hparent
              · exact absurd hnil (List.cons_ne_nil _ _)
              · exact hparent

theorem length_id_le {path : List Nat} {next k : Nat} {forest : Forest α β}
    {entry : List Nat × (α ⊕ β)} (h : (forest.listed path next)[k]? = some entry) :
    entry.1.length ≤ path.length + 1 + k := by
  induction forest generalizing path next k with
  | nil => simp [listed] at h
  | node label children rest ihChildren ihRest =>
      cases k with
      | zero =>
          obtain rfl : _ = entry := by simpa [listed] using h
          simp
      | succ k =>
          rw [listed, List.getElem?_cons_succ, List.getElem?_append] at h
          split at h
          · have hle := ihChildren h
            rw [List.length_append, List.length_singleton] at hle
            omega
          · have hle := ihRest h
            omega
  | leaf label rest ihRest =>
      cases k with
      | zero =>
          obtain rfl : _ = entry := by simpa [listed] using h
          simp
      | succ k =>
          rw [listed, List.getElem?_cons_succ] at h
          have hle := ihRest h
          omega

theorem position_le {path : List Nat} {next k position : Nat} {forest : Forest α β}
    {entry : List Nat × (α ⊕ β)} (h : (forest.listed path next)[k]? = some entry)
    (hposition : position ∈ entry.1) : position ∈ path ∨ position ≤ next + k := by
  induction forest generalizing path next k with
  | nil => simp [listed] at h
  | node label children rest ihChildren ihRest =>
      cases k with
      | zero =>
          obtain rfl : _ = entry := by simpa [listed] using h
          rcases List.mem_append.mp hposition with hpath | hlast
          · exact .inl hpath
          · exact .inr (Nat.le_of_eq (List.mem_singleton.mp hlast))
      | succ k =>
          rw [listed, List.getElem?_cons_succ, List.getElem?_append] at h
          split at h
          · rcases ihChildren h with hpath | hle
            · rcases List.mem_append.mp hpath with hpath | hlast
              · exact .inl hpath
              · rw [List.mem_singleton.mp hlast]
                exact .inr (Nat.le_add_right _ _)
            · exact .inr (by omega)
          · rcases ihRest h with hpath | hle
            · exact .inl hpath
            · exact .inr (by omega)
  | leaf label rest ihRest =>
      cases k with
      | zero =>
          obtain rfl : _ = entry := by simpa [listed] using h
          rcases List.mem_append.mp hposition with hpath | hlast
          · exact .inl hpath
          · exact .inr (Nat.le_of_eq (List.mem_singleton.mp hlast))
      | succ k =>
          rw [listed, List.getElem?_cons_succ] at h
          rcases ihRest h with hpath | hle
          · exact .inl hpath
          · exact .inr (by omega)

inductive Visit (α β : Type) where
  | opens (label : α)
  | closes (label : α)
  | meets (label : β)
deriving DecidableEq, Repr

-- the well-bracketed sequence that a traversal of the forest makes
def walk : Forest α β → List (Visit α β)
  | nil => []
  | node label children rest => .opens label :: (children.walk ++ .closes label :: rest.walk)
  | leaf label rest => .meets label :: rest.walk

def Visit.entered : Visit α β → Option (α ⊕ β)
  | opens label => some (.inl label)
  | closes _ => none
  | meets label => some (.inr label)

theorem listed_labels (path : List Nat) (next : Nat) (forest : Forest α β) :
    (forest.listed path next).map Prod.snd = forest.walk.filterMap Visit.entered := by
  induction forest generalizing path next with
  | nil => rfl
  | node label children rest ihChildren ihRest =>
      simp [listed, walk, List.filterMap_cons, Visit.entered, ihChildren, ihRest]
  | leaf label rest ihRest => simp [listed, walk, Visit.entered, ihRest]

inductive Encloses : Forest α β → List (Visit α β) → α → Forest α β → List (Visit α β) → Prop
  | here (label : α) (children rest : Forest α β) :
      Encloses (node label children rest) [] label children rest.walk
  | inChildren {children inside : Forest α β} {before after : List (Visit α β)} {inner : α}
      (label : α) (rest : Forest α β) (h : Encloses children before inner inside after) :
      Encloses (node label children rest) (.opens label :: before) inner inside
        (after ++ .closes label :: rest.walk)
  | inRest {rest inside : Forest α β} {before after : List (Visit α β)} {inner : α}
      (label : α) (children : Forest α β) (h : Encloses rest before inner inside after) :
      Encloses (node label children rest)
        (.opens label :: (children.walk ++ .closes label :: before)) inner inside after
  | afterLeaf {rest inside : Forest α β} {before after : List (Visit α β)} {inner : α}
      (label : β) (h : Encloses rest before inner inside after) :
      Encloses (leaf label rest) (.meets label :: before) inner inside after

theorem Encloses.walk_eq {forest inside : Forest α β} {before after : List (Visit α β)} {label : α}
    (h : Encloses forest before label inside after) :
    forest.walk = before ++ .opens label :: (inside.walk ++ .closes label :: after) := by
  induction h with
  | here label children rest => rfl
  | inChildren label rest h ih => simp [walk, ih]
  | inRest label children h ih => simp [walk, ih]
  | afterLeaf label h ih => simp [walk, ih]

theorem closes_enclosed {forest : Forest α β} {before after : List (Visit α β)} {label : α}
    (h : forest.walk = before ++ .closes label :: after) :
    ∃ outside inside, Encloses forest outside label inside after ∧
      before = outside ++ .opens label :: inside.walk := by
  induction forest generalizing before after with
  | nil => simp [walk] at h
  | node tag children rest ihChildren ihRest =>
      cases before with
      | nil => simp [walk] at h
      | cons visit before =>
          rw [walk, List.cons_append, List.cons.injEq] at h
          obtain ⟨rfl, h⟩ := h
          rcases List.append_eq_append_iff.mp h with ⟨gap, hbefore, hgap⟩ | ⟨gap, hwalk, hgap⟩
          · cases gap with
            | nil =>
                obtain ⟨⟨rfl⟩, rfl⟩ := List.cons.inj hgap
                exact ⟨[], children, .here _ _ _, by simp [hbefore]⟩
            | cons visit gap =>
                obtain ⟨rfl, hrest⟩ := List.cons.inj hgap
                obtain ⟨outside, inside, hinside, rfl⟩ := ihRest hrest
                exact ⟨_, inside, .inRest tag children hinside, by simp [hbefore]⟩
          · cases gap with
            | nil =>
                obtain ⟨⟨rfl⟩, rfl⟩ := List.cons.inj hgap
                rw [List.append_nil] at hwalk
                exact ⟨[], children, .here _ _ _, by simp [hwalk]⟩
            | cons visit gap =>
                obtain ⟨rfl, rfl⟩ := List.cons.inj hgap
                obtain ⟨outside, inside, hinside, rfl⟩ := ihChildren hwalk
                exact ⟨_, inside, .inChildren tag rest hinside, rfl⟩
  | leaf tag rest ihRest =>
      cases before with
      | nil => simp [walk] at h
      | cons visit before =>
          rw [walk, List.cons_append, List.cons.injEq] at h
          obtain ⟨rfl, h⟩ := h
          obtain ⟨outside, inside, hinside, rfl⟩ := ihRest h
          exact ⟨_, inside, .afterLeaf tag hinside, rfl⟩

end Forest
