import Mathlib.Order.Basic
import Mathlib.Order.Lattice
import Mathlib.Data.List.Basic
import Mathlib.Data.List.Sort
import Mathlib.Algebra.BigOperators.Group.List.Basic
import Mathlib.Algebra.Ring.Nat

structure OrdMap (K V : Type) [LinearOrder K] where
  entries : List (K × V)
  sorted : entries.Pairwise (fun a b => a.1 < b.1)

namespace OrdMap

variable {K V : Type} [LinearOrder K]

def lookupIn (k : K) : List (K × V) → Option V
  | [] => none
  | (k', v') :: rest => if k = k' then some v' else lookupIn k rest

def insertIn (k : K) (v : V) : List (K × V) → List (K × V)
  | [] => [(k, v)]
  | (k', v') :: rest =>
      if k < k' then (k, v) :: (k', v') :: rest
      else if k = k' then (k, v) :: rest
      else (k', v') :: insertIn k v rest

theorem mem_insertIn {k : K} {v : V} {e : K × V} {l : List (K × V)}
    (h : e ∈ insertIn k v l) : e = (k, v) ∨ e ∈ l := by
  induction l with
  | nil => simpa [insertIn] using h
  | cons hd tl ih =>
      obtain ⟨k', v'⟩ := hd
      simp only [insertIn] at h
      split_ifs at h with h1 h2
      · simpa using h
      · rcases List.mem_cons.mp h with h | h
        · exact Or.inl h
        · exact Or.inr (List.mem_cons_of_mem _ h)
      · rcases List.mem_cons.mp h with h | h
        · exact Or.inr (by simp [h])
        · rcases ih h with h | h
          · exact Or.inl h
          · exact Or.inr (List.mem_cons_of_mem _ h)

theorem sorted_insertIn (k : K) (v : V) {l : List (K × V)}
    (h : l.Pairwise (fun a b => a.1 < b.1)) :
    (insertIn k v l).Pairwise (fun a b => a.1 < b.1) := by
  induction l with
  | nil => simp [insertIn]
  | cons hd tl ih =>
      obtain ⟨k', v'⟩ := hd
      obtain ⟨hall, htl⟩ := List.pairwise_cons.mp h
      simp only [insertIn]
      split_ifs with h1 h2
      · refine List.pairwise_cons.mpr ⟨?_, h⟩
        intro e he
        rcases List.mem_cons.mp he with rfl | he
        · exact h1
        · exact h1.trans (hall e he)
      · exact List.pairwise_cons.mpr ⟨fun e he => h2 ▸ hall e he, htl⟩
      · refine List.pairwise_cons.mpr ⟨?_, ih htl⟩
        intro e he
        rcases mem_insertIn he with rfl | he
        · exact lt_of_le_of_ne (not_lt.mp h1) (Ne.symm h2)
        · exact hall e he

theorem lookupIn_insertIn (k j : K) (v : V) (l : List (K × V)) :
    lookupIn j (insertIn k v l) = if j = k then some v else lookupIn j l := by
  induction l with
  | nil => simp [insertIn, lookupIn]
  | cons hd tl ih =>
      obtain ⟨k', v'⟩ := hd
      rcases lt_trichotomy k k' with h | rfl | h
      · simp [insertIn, lookupIn, h]
      · by_cases hj : j = k <;> simp [insertIn, lookupIn, hj]
      · by_cases hj : j = k'
        · subst hj
          simp [insertIn, lookupIn, not_lt_of_gt h, (ne_of_gt h), (ne_of_gt h).symm]
        · simp [insertIn, lookupIn, not_lt_of_gt h, (ne_of_gt h), hj, ih]

theorem lookupIn_eq_none_of_lt {k : K} {l : List (K × V)}
    (h : ∀ e ∈ l, k < e.1) : lookupIn k l = none := by
  induction l with
  | nil => rfl
  | cons hd tl ih =>
      have hne : k ≠ hd.1 := ne_of_lt (h hd (by simp))
      simp [lookupIn, hne, ih (fun e he => h e (List.mem_cons_of_mem _ he))]

theorem mem_keys_of_lookupIn {A : Type} {k : K} {a : A} {l : List (K × A)}
    (h : lookupIn k l = some a) : k ∈ l.map Prod.fst := by
  induction l with
  | nil => simp [lookupIn] at h
  | cons hd tl ih =>
      simp only [lookupIn] at h
      split_ifs at h with hk
      · simp [hk]
      · exact List.mem_cons_of_mem _ (ih h)

theorem mem_iff_lookupIn {k : K} {v : V} {l : List (K × V)}
    (h : l.Pairwise (fun a b => a.1 < b.1)) :
    (k, v) ∈ l ↔ lookupIn k l = some v := by
  induction l with
  | nil => simp [lookupIn]
  | cons hd tl ih =>
      obtain ⟨k', v'⟩ := hd
      obtain ⟨hall, htl⟩ := List.pairwise_cons.mp h
      by_cases hk : k = k'
      · subst hk
        have hnone : lookupIn k tl = none := lookupIn_eq_none_of_lt hall
        have hnot : (k, v) ∉ tl := fun hm => by simp [(ih htl).mp hm] at hnone
        simp [lookupIn, hnot, eq_comm]
      · simp [lookupIn, hk, ih htl]

def get (m : OrdMap K V) (k : K) : Option V := lookupIn k m.entries

def empty : OrdMap K V := ⟨[], List.Pairwise.nil⟩

def insert (m : OrdMap K V) (k : K) (v : V) : OrdMap K V :=
  ⟨insertIn k v m.entries, sorted_insertIn k v m.sorted⟩

def remove (m : OrdMap K V) (k : K) : OrdMap K V :=
  ⟨m.entries.filter (fun e => decide (e.1 ≠ k)), m.sorted.filter _⟩

def len (m : OrdMap K V) : Nat := m.entries.length

def keys (m : OrdMap K V) : List K := m.entries.map Prod.fst

def values (m : OrdMap K V) : List V := m.entries.map Prod.snd

def first (m : OrdMap K V) : Option (K × V) := m.entries.head?

def rangeFrom (m : OrdMap K V) (start : K) : List (K × V) :=
  m.entries.filter (fun e => decide (start ≤ e.1))

@[simp] theorem get_empty (k : K) : (empty : OrdMap K V).get k = none := rfl

@[simp] theorem get_insert (m : OrdMap K V) (k j : K) (v : V) :
    (m.insert k v).get j = if j = k then some v else m.get j :=
  lookupIn_insertIn k j v m.entries

theorem lookupIn_filter_ne (k j : K) (l : List (K × V)) :
    lookupIn j (l.filter (fun e => decide (e.1 ≠ k))) = if j = k then none else lookupIn j l := by
  induction l with
  | nil => simp [lookupIn]
  | cons hd tl ih =>
      obtain ⟨k', v'⟩ := hd
      by_cases hk : k' = k
      · subst hk
        simp only [ne_eq, not_true_eq_false, decide_false, Bool.false_eq_true, not_false_eq_true,
          List.filter_cons_of_neg]
        rw [ih]
        by_cases hj : j = k' <;> simp [lookupIn, hj]
      · simp only [ne_eq, hk, not_false_eq_true, decide_true, List.filter_cons_of_pos, lookupIn]
        rw [ih]
        by_cases hj : j = k'
        · subst hj; simp [hk]
        · simp [hj]

@[simp] theorem get_remove (m : OrdMap K V) (k j : K) :
    (m.remove k).get j = if j = k then none else m.get j :=
  lookupIn_filter_ne k j m.entries

theorem mem_entries {m : OrdMap K V} {k : K} {v : V} :
    (k, v) ∈ m.entries ↔ m.get k = some v :=
  mem_iff_lookupIn m.sorted

theorem entries_nodup (m : OrdMap K V) : m.entries.Nodup :=
  m.sorted.imp (fun h he => absurd (congrArg Prod.fst he) (ne_of_lt h))

theorem keys_nodup (m : OrdMap K V) : m.keys.Nodup :=
  List.pairwise_map.mpr (m.sorted.imp (fun h => ne_of_lt h))

theorem mem_values {m : OrdMap K V} {v : V} : v ∈ m.values ↔ ∃ k, m.get k = some v := by
  simp only [values, List.mem_map]
  constructor
  · rintro ⟨⟨k, w⟩, hm, rfl⟩
    exact ⟨k, mem_entries.mp hm⟩
  · rintro ⟨k, hk⟩
    exact ⟨(k, v), mem_entries.mpr hk, rfl⟩

theorem mem_keys {m : OrdMap K V} {k : K} : k ∈ m.keys ↔ ∃ v, m.get k = some v := by
  simp only [keys, List.mem_map]
  constructor
  · rintro ⟨⟨j, w⟩, hm, rfl⟩
    exact ⟨w, mem_entries.mp hm⟩
  · rintro ⟨v, hk⟩
    exact ⟨(k, v), mem_entries.mpr hk, rfl⟩

theorem entries_ext {l₁ l₂ : List (K × V)}
    (h₁ : l₁.Pairwise (fun a b => a.1 < b.1)) (h₂ : l₂.Pairwise (fun a b => a.1 < b.1))
    (h : ∀ e, e ∈ l₁ ↔ e ∈ l₂) : l₁ = l₂ := by
  have hn₁ : l₁.Nodup := h₁.imp (fun h he => absurd (congrArg Prod.fst he) (ne_of_lt h))
  have hn₂ : l₂.Nodup := h₂.imp (fun h he => absurd (congrArg Prod.fst he) (ne_of_lt h))
  have hp : l₁.Perm l₂ := (List.perm_ext_iff_of_nodup hn₁ hn₂).mpr h
  refine hp.eq_of_pairwise ?_ h₁ h₂
  intro a b _ _ hab hba
  exact absurd (hab.trans hba) (lt_irrefl _)

theorem ext_get {m₁ m₂ : OrdMap K V} (h : ∀ k, m₁.get k = m₂.get k) : m₁ = m₂ := by
  have he : m₁.entries = m₂.entries := by
    apply entries_ext m₁.sorted m₂.sorted
    rintro ⟨k, v⟩
    rw [mem_entries, mem_entries, h]
  cases m₁
  cases m₂
  simpa using he

theorem remove_of_get_none {m : OrdMap K V} {k : K} (h : m.get k = none) : m.remove k = m := by
  apply ext_get
  intro j
  by_cases hj : j = k
  · simp [hj, h]
  · simp [hj]

theorem values_remove [DecidableEq V] {m : OrdMap K V} {k : K} {v : V} {l r : List V}
    (h : m.get k = some v) (hvalues : m.values = l ++ v :: r) (hnodup : m.values.Nodup) :
    (m.remove k).values = l ++ r := by
  have hmem : (k, v) ∈ m.entries := mem_entries.mpr h
  have hsame : ∀ e ∈ m.entries, (e.1 ≠ k ↔ e.2 ≠ v) := by
    intro e he
    refine not_congr ⟨fun hk => ?_, fun hv => ?_⟩
    · have hget : m.get k = some e.2 := mem_entries.mp (hk ▸ he)
      exact Option.some.inj (hget.symm.trans h)
    · exact congrArg Prod.fst (List.inj_on_of_nodup_map hnodup he hmem hv)
  have hfilter : m.entries.filter (fun e => decide (e.1 ≠ k)) =
      m.entries.filter (fun e => decide (e.2 ≠ v)) :=
    List.filter_congr (fun e he => decide_eq_decide.mpr (hsame e he))
  have hrest : (m.remove k).values = m.values.filter (fun w => decide (w ≠ v)) := by
    change (m.entries.filter (fun e => decide (e.1 ≠ k))).map Prod.snd = _
    rw [hfilter, values, List.filter_map]
    rfl
  have hsplit : (l ++ v :: r).Nodup := hvalues ▸ hnodup
  obtain ⟨-, hright, hdisjoint⟩ := List.nodup_append.mp hsplit
  have hl : ∀ w ∈ l, w ≠ v := fun w hw => hdisjoint w hw v List.mem_cons_self
  have hr : ∀ w ∈ r, w ≠ v := fun w hw heq => (List.nodup_cons.mp hright).1 (heq ▸ hw)
  rw [hrest, hvalues, List.filter_append, List.filter_cons_of_neg (by simp),
    List.filter_eq_self.mpr (fun w hw => decide_eq_true (hl w hw)),
    List.filter_eq_self.mpr (fun w hw => decide_eq_true (hr w hw))]

theorem perm_insertIn (k : K) (v : V) (l : List (K × V))
    (h : l.Pairwise (fun a b => a.1 < b.1)) :
    (insertIn k v l).Perm ((k, v) :: l.filter (fun e => decide (e.1 ≠ k))) := by
  induction l with
  | nil => simp [insertIn]
  | cons hd tl ih =>
      obtain ⟨k', v'⟩ := hd
      obtain ⟨hall, htl⟩ := List.pairwise_cons.mp h
      have keep {j : K} (hj : ∀ e ∈ tl, j < e.1) :
          tl.filter (fun e => decide (e.1 ≠ j)) = tl :=
        List.filter_eq_self.mpr (fun e he => by simpa using (ne_of_lt (hj e he)).symm)
      simp only [insertIn]
      split_ifs with h1 h2
      · have hk : k' ≠ k := (ne_of_lt h1).symm
        rw [List.filter_cons_of_pos (by simpa using hk), keep (fun e he => h1.trans (hall e he))]
      · subst h2
        rw [List.filter_cons_of_neg (by simp), keep hall]
      · have hk : k' ≠ k := Ne.symm h2
        simp only [ne_eq, hk, not_false_eq_true, decide_true, List.filter_cons_of_pos]
        exact ((ih htl).cons _).trans (List.Perm.swap _ _ _)

theorem entries_insert_perm (m : OrdMap K V) (k : K) (v : V) :
    (m.insert k v).entries.Perm ((k, v) :: (m.remove k).entries) :=
  perm_insertIn k v m.entries m.sorted

theorem entries_perm_remove {m : OrdMap K V} {k : K} {v : V} (h : m.get k = some v) :
    m.entries.Perm ((k, v) :: (m.remove k).entries) := by
  have hm : m.insert k v = m := by
    apply ext_get
    intro j
    by_cases hj : j = k
    · simp [hj, h]
    · simp [hj]
  have hp := entries_insert_perm m k v
  rwa [hm] at hp

theorem countP_insert (m : OrdMap K V) (k : K) (v : V) (p : K × V → Bool)
    (h : m.get k = none) :
    (m.insert k v).entries.countP p = m.entries.countP p + (if p (k, v) then 1 else 0) := by
  rw [(entries_insert_perm m k v).countP_eq, remove_of_get_none h, List.countP_cons]

theorem countP_remove (m : OrdMap K V) (k : K) (v : V) (p : K × V → Bool)
    (h : m.get k = some v) :
    (m.remove k).entries.countP p + (if p (k, v) then 1 else 0) = m.entries.countP p := by
  rw [(entries_perm_remove h).countP_eq, List.countP_cons]

-- what one key sees of a fold over entries with distinct keys
theorem foldl_at {S A B : Type} (get : S → B) (step : S → K × A → S) (k : K) (f : B → A → B)
    (hsame : ∀ s a, get (step s (k, a)) = f (get s) a)
    (hother : ∀ s e, e.1 ≠ k → get (step s e) = get s)
    {es : List (K × A)} (hnodup : (es.map Prod.fst).Nodup) (s : S) :
    get (es.foldl step s) = (lookupIn k es).elim (get s) (f (get s)) := by
  induction es generalizing s with
  | nil => rfl
  | cons e es ih =>
      obtain ⟨hnot, hrest⟩ := List.nodup_cons.mp hnodup
      obtain ⟨j, a⟩ := e
      rw [List.foldl_cons, ih hrest]
      by_cases hk : k = j
      · subst hk
        have hnone : lookupIn k es = none := by
          cases hl : lookupIn k es with
          | none => rfl
          | some b => exact absurd (mem_keys_of_lookupIn hl) hnot
        simp [lookupIn, hnone, hsame]
      · rw [hother s (j, a) (Ne.symm hk)]
        simp [lookupIn, hk]

theorem get_foldl_keyed {S A : Type} (get : S → K → Option V) (step : S → K × A → S)
    (f : Option V → A → Option V) (hsame : ∀ s e, get (step s e) e.1 = f (get s e.1) e.2)
    (hother : ∀ s e k, k ≠ e.1 → get (step s e) k = get s k)
    {es : List (K × A)} (hnodup : (es.map Prod.fst).Nodup) (s : S) (k : K) :
    get (es.foldl step s) k = (lookupIn k es).elim (get s k) (f (get s k)) :=
  foldl_at (fun s => get s k) step k f (fun s a => hsame s (k, a))
    (fun s e he => hother s e k (Ne.symm he)) hnodup s

def orInsert (m : OrdMap K V) (k : K) (v : V) : OrdMap K V :=
  match m.get k with
  | some _ => m
  | none => m.insert k v

theorem isSome_orInsert (m : OrdMap K V) (k j : K) (v : V) :
    ((m.orInsert k v).get j).isSome = (decide (j = k) || (m.get j).isSome) := by
  rw [orInsert]
  cases hk : m.get k with
  | some w =>
      by_cases hj : j = k
      · simp [hj, hk]
      · simp [hj]
  | none =>
      by_cases hj : j = k
      · simp [hj]
      · simp [hj]

theorem orInsert_of_isSome {m : OrdMap K V} {k : K} (v : V) (h : (m.get k).isSome) :
    m.orInsert k v = m := by
  obtain ⟨w, hw⟩ := Option.isSome_iff_exists.mp h
  simp [orInsert, hw]

def total (m : OrdMap K V) (f : K × V → Nat) : Nat := (m.entries.map f).sum

theorem total_insert (m : OrdMap K V) (k : K) (v : V) (f : K × V → Nat) :
    (m.insert k v).total f = f (k, v) + (m.remove k).total f := by
  simpa [total] using ((entries_insert_perm m k v).map f).sum_eq

theorem total_of_get_some {m : OrdMap K V} {k : K} {v : V} (f : K × V → Nat)
    (h : m.get k = some v) : m.total f = f (k, v) + (m.remove k).total f := by
  simpa [total] using ((entries_perm_remove h).map f).sum_eq

theorem total_add (m : OrdMap K V) (f g : K × V → Nat) :
    m.total (fun e => f e + g e) = m.total f + m.total g :=
  List.sum_map_add

theorem len_insert_of_get_none {m : OrdMap K V} {k : K} (v : V) (h : m.get k = none) :
    (m.insert k v).len = m.len + 1 := by
  have hp := (entries_insert_perm m k v).length_eq
  rw [remove_of_get_none h] at hp
  simpa [len] using hp

theorem len_remove_of_get_some {m : OrdMap K V} {k : K} {v : V} (h : m.get k = some v) :
    (m.remove k).len + 1 = m.len := by
  have hp := (entries_perm_remove h).length_eq
  simpa [len] using hp.symm

theorem first_get {m : OrdMap K V} {k : K} {v : V} (h : m.first = some (k, v)) :
    m.get k = some v :=
  mem_entries.mp (List.mem_of_mem_head? h)

theorem mem_rangeFrom {m : OrdMap K V} {s k : K} {v : V} :
    (k, v) ∈ m.rangeFrom s ↔ m.get k = some v ∧ s ≤ k := by
  simp [rangeFrom, mem_entries]

def filter (m : OrdMap K V) (p : K × V → Bool) : OrdMap K V :=
  ⟨m.entries.filter p, m.sorted.filter p⟩

theorem get_of_filter {m : OrdMap K V} {p : K × V → Bool} {k : K} {v : V}
    (h : (m.filter p).get k = some v) : m.get k = some v :=
  mem_entries.mp (List.mem_of_mem_filter (mem_entries.mpr h))

def map (f : V → V) (m : OrdMap K V) : OrdMap K V where
  entries := m.entries.map (fun e => (e.1, f e.2))
  sorted := List.pairwise_map.mpr m.sorted

theorem lookupIn_map (f : V → V) (k : K) (l : List (K × V)) :
    lookupIn k (l.map (fun e => (e.1, f e.2))) = (lookupIn k l).map f := by
  induction l with
  | nil => rfl
  | cons e l ih =>
      rw [List.map_cons, lookupIn, lookupIn]
      split_ifs
      · rfl
      · exact ih

@[simp] theorem get_map (f : V → V) (m : OrdMap K V) (k : K) : (m.map f).get k = (m.get k).map f :=
  lookupIn_map f k m.entries

def modify (m : OrdMap K V) (k : K) (f : V → V) : OrdMap K V :=
  match m.get k with
  | none => m
  | some v => m.insert k (f v)

@[simp] theorem get_modify_self (m : OrdMap K V) (k : K) (f : V → V) :
    (m.modify k f).get k = (m.get k).map f := by
  rw [modify]
  cases h : m.get k with
  | none => exact h
  | some v => exact (get_insert ..).trans (if_pos rfl)

theorem get_modify_of_ne (m : OrdMap K V) {k j : K} (f : V → V) (h : j ≠ k) :
    (m.modify k f).get j = m.get j := by
  rw [modify]
  cases m.get k with
  | none => rfl
  | some v => exact (get_insert ..).trans (if_neg h)

def Every (p : V → Prop) (m : OrdMap K V) : Prop := ∀ k v, m.get k = some v → p v

theorem every_empty (p : V → Prop) : Every p (empty : OrdMap K V) :=
  fun _ _ h => absurd h (by simp)

section Every

variable {p : V → Prop} {m : OrdMap K V}

theorem Every.insert (h : m.Every p) (k : K) {v : V} (hv : p v) : (m.insert k v).Every p := by
  intro j w hget
  rw [get_insert] at hget
  split_ifs at hget
  · exact Option.some.inj hget ▸ hv
  · exact h j w hget

theorem Every.remove (h : m.Every p) (k : K) : (m.remove k).Every p := by
  intro j w hget
  rw [get_remove] at hget
  split_ifs at hget
  exact h j w hget

theorem Every.map (h : m.Every p) {f : V → V} (hf : ∀ v, p v → p (f v)) : (m.map f).Every p := by
  intro j w hget
  rw [get_map] at hget
  obtain ⟨v, hv, rfl⟩ := Option.map_eq_some_iff.mp hget
  exact hf v (h j v hv)

theorem Every.modify (h : m.Every p) (k : K) {f : V → V} (hf : ∀ v, p v → p (f v)) :
    (m.modify k f).Every p := by
  rw [OrdMap.modify]
  cases hget : m.get k with
  | none => exact h
  | some v => exact h.insert k (hf v (h k v hget))

end Every

end OrdMap
