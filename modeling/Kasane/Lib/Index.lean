import Kasane.Lib.OrdMap
import Mathlib.Logic.Function.Basic

namespace OrdMap

variable {I E K V : Type} [LinearOrder K]

def Indexes (m : OrdMap K V) (table : I → Option E) (key : I → E → K) (val : I → E → V) : Prop :=
  ∀ k v, m.get k = some v ↔ ∃ i e, table i = some e ∧ key i e = k ∧ val i e = v

theorem get_foldl_insert {A : Type} (key : A → K) (val : A → V) (l : List A)
    (hfun : ∀ a ∈ l, ∀ b ∈ l, key a = key b → val a = val b) (m : OrdMap K V) (k : K) (v : V) :
    (l.foldl (fun m a => m.insert (key a) (val a)) m).get k = some v ↔
      (∃ a ∈ l, key a = k ∧ val a = v) ∨ ((∀ a ∈ l, key a ≠ k) ∧ m.get k = some v) := by
  induction l generalizing m with
  | nil => simp
  | cons a l ih =>
      have hrest : ∀ a ∈ l, ∀ b ∈ l, key a = key b → val a = val b :=
        fun x hx y hy => hfun x (List.mem_cons_of_mem _ hx) y (List.mem_cons_of_mem _ hy)
      rw [List.foldl_cons, ih hrest, get_insert]
      simp only [List.exists_mem_cons_iff, List.forall_mem_cons]
      rcases eq_or_ne k (key a) with rfl | hne
      · simp only [if_pos, true_and, ne_eq, not_true_eq_false, false_and, or_false,
          Option.some.injEq]
        constructor
        · rintro (h | ⟨-, hv⟩)
          · exact Or.inr h
          · exact Or.inl hv
        · rintro (hv | h)
          · by_cases hex : ∃ b ∈ l, key b = key a
            · obtain ⟨b, hb, hkb⟩ := hex
              have hval := hfun b (List.mem_cons_of_mem _ hb) a (List.mem_cons_self ..) hkb
              exact Or.inl ⟨b, hb, hkb, hval.trans hv⟩
            · exact Or.inr ⟨fun b hb hkb => hex ⟨b, hb, hkb⟩, hv⟩
          · exact Or.inl h
      · simp [hne, hne.symm]

namespace Indexes

variable {m : OrdMap K V} {table : I → Option E} {key : I → E → K} {val : I → E → V} {i : I} {e : E}

theorem empty : Indexes (.empty : OrdMap K V) (fun _ : I => none) key val := by
  intro k v
  simp

theorem get_some (h : Indexes m table key val) (hi : table i = some e) :
    m.get (key i e) = some (val i e) :=
  (h _ _).mpr ⟨i, e, hi, rfl, rfl⟩

theorem get_none {k : K} (h : Indexes m table key val)
    (hk : ∀ j e', table j = some e' → key j e' ≠ k) : m.get k = none := by
  cases hget : m.get k with
  | none => rfl
  | some v =>
      obtain ⟨j, e', hj, hkey, -⟩ := (h k v).mp hget
      exact absurd hkey (hk j e' hj)

theorem inverse [LinearOrder V] {m' : OrdMap V K} (h : Indexes m table key val)
    (h' : Indexes m' table val key) (k : K) (v : V) : m.get k = some v ↔ m'.get v = some k := by
  rw [h k v, h' v k]
  constructor
  · rintro ⟨j, e', hj, hk, hv⟩
    exact ⟨j, e', hj, hv, hk⟩
  · rintro ⟨j, e', hj, hv, hk⟩
    exact ⟨j, e', hj, hk, hv⟩

theorem unique {m' : OrdMap K V} (h : Indexes m table key val) (h' : Indexes m' table key val) :
    m = m' :=
  ext_get (fun k => Option.ext (fun v => (h k v).trans (h' k v).symm))

theorem get_own {table : K → Option E} {val : K → E → V}
    (h : Indexes m table (fun k _ => k) val) (k : K) (v : V) :
    m.get k = some v ↔ ∃ e', table k = some e' ∧ val k e' = v := by
  rw [h k v]
  constructor
  · rintro ⟨j, e', hj, rfl, hv⟩
    exact ⟨e', hj, hv⟩
  · rintro ⟨e', hk, hv⟩
    exact ⟨k, e', hk, rfl, hv⟩

theorem isSome_own {table : K → Option E} {val : K → E → V}
    (h : Indexes m table (fun k _ => k) val) (k : K) : (m.get k).isSome ↔ (table k).isSome := by
  cases htable : table k with
  | none =>
      have hnone : m.get k = none := h.get_none (fun j e' hj hjk => by
        rw [hjk, htable] at hj
        exact absurd hj (by simp))
      rw [hnone]
      rfl
  | some e' =>
      have hsome : m.get k = some (val k e') := h.get_some htable
      rw [hsome]
      rfl

theorem insert [DecidableEq I] (h : Indexes m table key val) (hi : table i = none)
    (hk : ∀ j e', table j = some e' → key j e' ≠ key i e) :
    Indexes (m.insert (key i e) (val i e)) (Function.update table i (some e)) key val := by
  have hother {j : I} {e' : E} (hj : table j = some e') : j ≠ i := by
    rintro rfl
    rw [hi] at hj
    exact absurd hj (by simp)
  intro k v
  rw [get_insert]
  split_ifs with hkey
  · constructor
    · intro hv
      exact ⟨i, e, Function.update_self .., hkey.symm, Option.some.inj hv⟩
    · rintro ⟨j, e', hj, hk', rfl⟩
      rcases eq_or_ne j i with rfl | hne
      · rw [Function.update_self] at hj
        obtain rfl := Option.some.inj hj
        rfl
      · rw [Function.update_of_ne hne] at hj
        exact absurd (hk'.trans hkey) (hk j e' hj)
  · rw [h k v]
    constructor
    · rintro ⟨j, e', hj, hk', hv⟩
      exact ⟨j, e', by rw [Function.update_of_ne (hother hj), hj], hk', hv⟩
    · rintro ⟨j, e', hj, hk', hv⟩
      rcases eq_or_ne j i with rfl | hne
      · rw [Function.update_self] at hj
        obtain rfl := Option.some.inj hj
        exact absurd hk'.symm hkey
      · rw [Function.update_of_ne hne] at hj
        exact ⟨j, e', hj, hk', hv⟩

theorem remove [DecidableEq I] (h : Indexes m table key val) (hi : table i = some e)
    (hk : ∀ j e', table j = some e' → key j e' = key i e → j = i) :
    Indexes (m.remove (key i e)) (Function.update table i none) key val := by
  intro k v
  rw [get_remove]
  split_ifs with hkey
  · constructor
    · intro hv
      exact absurd hv (by simp)
    · rintro ⟨j, e', hj, hk', -⟩
      rcases eq_or_ne j i with rfl | hne
      · rw [Function.update_self] at hj
        exact absurd hj (by simp)
      · rw [Function.update_of_ne hne] at hj
        exact absurd (hk j e' hj (hk'.trans hkey)) hne
  · rw [h k v]
    constructor
    · rintro ⟨j, e', hj, hk', hv⟩
      have hne : j ≠ i := by
        rintro rfl
        obtain rfl := Option.some.inj (hi.symm.trans hj)
        exact hkey hk'.symm
      exact ⟨j, e', by rw [Function.update_of_ne hne, hj], hk', hv⟩
    · rintro ⟨j, e', hj, hk', hv⟩
      rcases eq_or_ne j i with rfl | hne
      · rw [Function.update_self] at hj
        exact absurd hj (by simp)
      · rw [Function.update_of_ne hne] at hj
        exact ⟨j, e', hj, hk', hv⟩

theorem map (h : Indexes m table key val) (f : I → E → E) (hkey : ∀ i e, key i (f i e) = key i e)
    (hval : ∀ i e, val i (f i e) = val i e) :
    Indexes m (fun i => (table i).map (f i)) key val := by
  intro k v
  rw [h k v]
  constructor
  · rintro ⟨j, e', hj, hk, hv⟩
    exact ⟨j, f j e', Option.map_eq_some_iff.mpr ⟨e', hj, rfl⟩, (hkey j e').trans hk,
      (hval j e').trans hv⟩
  · rintro ⟨j, e', hj, hk, hv⟩
    obtain ⟨e₀, h₀, rfl⟩ := Option.map_eq_some_iff.mp hj
    exact ⟨j, e₀, h₀, (hkey j e₀).symm.trans hk, (hval j e₀).symm.trans hv⟩

end Indexes

end OrdMap
