import Mathlib.Data.List.Basic
import Mathlib.Data.Set.Function
import Mathlib.Logic.Function.Basic

namespace Listing

variable {K P V : Type}

section

variable [DecidableEq P]

def writes (f : P → Option V) (es : List (P × Option V)) : P → Option V :=
  es.foldl (fun f e => Function.update f e.1 e.2) f

@[simp] theorem writes_nil (f : P → Option V) : writes f [] = f := rfl

theorem writes_cons (f : P → Option V) (e : P × Option V) (es : List (P × Option V)) :
    writes f (e :: es) = writes (Function.update f e.1 e.2) es := rfl

theorem writes_of_not_mem {es : List (P × Option V)} {p : P} (h : p ∉ es.map Prod.fst)
    (f : P → Option V) : writes f es p = f p := by
  induction es generalizing f with
  | nil => rfl
  | cons e es ih =>
      rw [List.map_cons, List.mem_cons, not_or] at h
      rw [writes_cons, ih h.2, Function.update_of_ne h.1]

theorem writes_of_mem {es : List (P × Option V)} (hnodup : (es.map Prod.fst).Nodup) {p : P}
    {v : Option V} (h : (p, v) ∈ es) (f : P → Option V) : writes f es p = v := by
  induction es generalizing f with
  | nil => exact absurd h List.not_mem_nil
  | cons e es ih =>
      rw [List.map_cons, List.nodup_cons] at hnodup
      rw [writes_cons]
      rcases List.mem_cons.mp h with rfl | h
      · rw [writes_of_not_mem hnodup.1, Function.update_self]
      · exact ih hnodup.2 h _

theorem writes_perm {es es' : List (P × Option V)} (hnodup : (es.map Prod.fst).Nodup)
    (hperm : es.Perm es') (f : P → Option V) : writes f es = writes f es' := by
  have hnodup' : (es'.map Prod.fst).Nodup := (hperm.map Prod.fst).nodup_iff.mp hnodup
  funext p
  by_cases hp : p ∈ es.map Prod.fst
  · obtain ⟨e, he, rfl⟩ := List.mem_map.mp hp
    rw [writes_of_mem hnodup he, writes_of_mem hnodup' (hperm.mem_iff.mp he)]
  · rw [writes_of_not_mem hp, writes_of_not_mem (fun h => hp ((hperm.map Prod.fst).mem_iff.mpr h))]

end

-- the entries under the paths of the keys, and no others
structure Lists (path : K → P) (f : K → Option V) (e : P → Option V) : Prop where
  holds : ∀ k v, f k = some v → e (path k) = some v
  only : ∀ p v, e p = some v → ∃ k, f k = some v ∧ path k = p

variable {path : K → P} {f : K → Option V} {e e' : P → Option V}

theorem lists_none : Lists path (fun _ => none : K → Option V) (fun _ => none) :=
  ⟨fun _ _ h => h, fun _ _ h => absurd h (by simp)⟩

theorem Lists.le (h : Lists path f e) (h' : Lists path f e') {p : P} {v : V} (hp : e p = some v) :
    e' p = some v := by
  obtain ⟨k, hk, rfl⟩ := h.only p v hp
  exact h'.holds k v hk

theorem Lists.unique (h : Lists path f e) (h' : Lists path f e') : e = e' := by
  funext p
  cases hp : e p with
  | some v => exact (h.le h' hp).symm
  | none =>
      cases hp' : e' p with
      | none => rfl
      | some v => exact absurd (hp.symm.trans (h'.le h hp')) (by simp)

theorem Lists.at {S : Set K} (h : Lists path f e) (hinj : Set.InjOn path S)
    (hf : ∀ k, f k ≠ none → k ∈ S) {k : K} (hk : k ∈ S) : e (path k) = f k := by
  cases hvalue : f k with
  | some v => exact h.holds k v hvalue
  | none =>
      by_contra hne
      obtain ⟨v, hv⟩ := Option.ne_none_iff_exists'.mp hne
      obtain ⟨j, hj, hpath⟩ := h.only (path k) v hv
      have hjS : j ∈ S := hf j (by rw [hj]; exact Option.some_ne_none v)
      rw [hinj hjS hk hpath, hvalue] at hj
      cases hj

-- a listing under apart paths is the listing of one function only
theorem Lists.functional {S : Set K} {f' : K → Option V} (h : Lists path f e) (h' : Lists path f' e)
    (hinj : Set.InjOn path S) (hf : ∀ k, f k ≠ none → k ∈ S) (hf' : ∀ k, f' k ≠ none → k ∈ S) :
    f = f' := by
  funext k
  by_cases hk : k ∈ S
  · exact (h.at hinj hf hk).symm.trans (h'.at hinj hf' hk)
  · have hnone : f k = none := by
      by_contra hne
      exact hk (hf k hne)
    have hnone' : f' k = none := by
      by_contra hne
      exact hk (hf' k hne)
    rw [hnone, hnone']

variable [DecidableEq K] [DecidableEq P] {S : Set K}

theorem Lists.update (hinj : Set.InjOn path S) (hf : ∀ k, f k ≠ none → k ∈ S) (h : Lists path f e)
    {k : K} (hk : k ∈ S) (v : Option V) :
    Lists path (Function.update f k v) (Function.update e (path k) v) := by
  constructor
  · intro j w hj
    by_cases hjk : j = k
    · subst hjk
      rw [Function.update_self] at hj ⊢
      exact hj
    · rw [Function.update_of_ne hjk] at hj
      have hjS : j ∈ S := hf j (by rw [hj]; exact Option.some_ne_none w)
      rw [Function.update_of_ne (fun heq => hjk (hinj hjS hk heq))]
      exact h.holds j w hj
  · intro p w hp
    by_cases hpk : p = path k
    · subst hpk
      rw [Function.update_self] at hp
      exact ⟨k, by rw [Function.update_self, hp], rfl⟩
    · rw [Function.update_of_ne hpk] at hp
      obtain ⟨j, hj, rfl⟩ := h.only p w hp
      refine ⟨j, ?_, rfl⟩
      rw [Function.update_of_ne (fun heq => hpk (congrArg path heq)), hj]

theorem Lists.writes (hinj : Set.InjOn path S) (hf : ∀ k, f k ≠ none → k ∈ S)
    (h : Lists path f e) {es : List (K × Option V)} (hes : ∀ x ∈ es, x.1 ∈ S) :
    Lists path (Listing.writes f es) (Listing.writes e (es.map (fun x => (path x.1, x.2)))) := by
  induction es generalizing f e with
  | nil => exact h
  | cons x es ih =>
      have hx := hes x List.mem_cons_self
      rw [List.map_cons, writes_cons, writes_cons]
      refine ih (fun k hk => ?_) (h.update hinj hf hx x.2)
        (fun y hy => hes y (List.mem_cons_of_mem _ hy))
      by_cases hkx : k = x.1
      · rwa [hkx]
      · rw [Function.update_of_ne hkx] at hk
        exact hf k hk

end Listing
