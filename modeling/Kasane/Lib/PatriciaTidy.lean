import Kasane.Lib.Patricia

namespace Patricia

variable {N V : Type}

def after (s : List N) (entries : Entries N V) : Entries N V := fun t => entries (s ++ t)

-- s is the longest prefix that k shares with an entry
structure Meets (entries : Entries N V) (k s : List N) : Prop where
  isPrefix : s <+: k
  met : ∃ t, entries (s ++ t) ≠ none
  longest : ∀ s', s' <+: k → (∃ t, entries (s' ++ t) ≠ none) → s'.length ≤ s.length

theorem exists_meets {entries : Entries N V} (hne : ∃ t, entries t ≠ none) (k : List N) :
    ∃ s, Meets entries k s := by
  induction k generalizing entries with
  | nil =>
      refine ⟨[], List.nil_prefix, hne, fun s' hs' _ => ?_⟩
      exact Nat.le_of_eq (congrArg List.length (List.prefix_nil.mp hs'))
  | cons a k ih =>
      by_cases h : ∃ t, entries (a :: t) ≠ none
      · have hafter : ∃ t, after [a] entries t ≠ none := h
        obtain ⟨s, hs⟩ := ih hafter
        refine ⟨a :: s, List.cons_prefix_cons.mpr ⟨rfl, hs.isPrefix⟩, hs.met, ?_⟩
        intro s' hs' hmet
        cases s' with
        | nil => exact Nat.zero_le _
        | cons b s' =>
            obtain ⟨rfl, hrest⟩ := List.cons_prefix_cons.mp hs'
            exact Nat.succ_le_succ (hs.longest s' hrest hmet)
      · refine ⟨[], List.nil_prefix, hne, fun s' hs' hmet => ?_⟩
        cases s' with
        | nil => exact Nat.le_refl _
        | cons b s' =>
            obtain ⟨rfl, -⟩ := List.cons_prefix_cons.mp hs'
            obtain ⟨t, ht⟩ := hmet
            exact absurd ⟨s' ++ t, ht⟩ h

theorem meets_unique {entries : Entries N V} {k s s' : List N} (h : Meets entries k s)
    (h' : Meets entries k s') : s = s' := by
  have hlength := Nat.le_antisymm (h'.longest s h.isPrefix h.met) (h.longest s' h'.isPrefix h'.met)
  exact (List.prefix_of_prefix_length_le h.isPrefix h'.isPrefix (Nat.le_of_eq hlength)).eq_of_length hlength

theorem meets_cons {below : N → Entries N V} {i : N} {k s : List N} (h : Meets (below i) k s) :
    Meets (fork below) (i :: k) (i :: s) := by
  refine ⟨List.cons_prefix_cons.mpr ⟨rfl, h.isPrefix⟩, h.met, ?_⟩
  intro s' hs' hmet
  cases s' with
  | nil => exact Nat.zero_le _
  | cons j s' =>
      obtain ⟨rfl, hrest⟩ := List.cons_prefix_cons.mp hs'
      exact Nat.succ_le_succ (h.longest s' hrest hmet)

theorem meets_cons_iff {below : N → Entries N V} {i : N} {k : List N}
    (hne : ∃ t, below i t ≠ none) (s : List N) :
    Meets (fork below) (i :: k) s ↔ ∃ s', s = i :: s' ∧ Meets (below i) k s' := by
  constructor
  · intro h
    cases s with
    | nil =>
        have hlong := h.longest [i] ⟨k, rfl⟩ hne
        exact absurd hlong (by simp)
    | cons j s =>
        obtain ⟨rfl, hs⟩ := List.cons_prefix_cons.mp h.isPrefix
        refine ⟨s, rfl, hs, h.met, fun s' hs' hmet => ?_⟩
        exact Nat.le_of_succ_le_succ
          (h.longest (j :: s') (List.cons_prefix_cons.mpr ⟨rfl, hs'⟩) hmet)
  · rintro ⟨s', rfl, hs⟩
    exact meets_cons hs

theorem meets_nil {below : N → Entries N V} {i : N} {k s : List N}
    (hgone : below i = fun _ => none) (h : Meets (fork below) (i :: k) s) : s = [] := by
  cases s with
  | nil => rfl
  | cons j s =>
      obtain ⟨rfl, -⟩ := List.cons_prefix_cons.mp h.isPrefix
      obtain ⟨t, ht⟩ := h.met
      rw [List.cons_append, fork, hgone] at ht
      exact absurd rfl ht

theorem after_cons (below : N → Entries N V) (i : N) (s : List N) :
    after (i :: s) (fork below) = after s (below i) := rfl

@[simp] theorem after_nil (entries : Entries N V) : after [] entries = entries := rfl

theorem exists_or_none (entries : Entries N V) :
    (∃ t, entries t ≠ none) ∨ entries = fun _ => none := by
  by_cases h : ∃ t, entries t ≠ none
  · exact .inl h
  · refine .inr (funext fun t => ?_)
    by_contra ht
    exact h ⟨t, ht⟩

theorem dropLast_prefix_ne {key : List N} (hne : key ≠ []) : key.dropLast <+: key ∧ key.dropLast ≠ key := by
  refine ⟨List.dropLast_prefix key, fun heq => ?_⟩
  have hlength := congrArg List.length heq
  have hpos := List.length_pos_of_ne_nil hne
  rw [List.length_dropLast] at hlength
  omega

section

variable [DecidableEq N]

-- the entries left by the removal of k fork where k leaves them, or one step above
def Tidy (entries : Entries N V) (k : List N) : Prop :=
  ∀ s, Meets (Function.update entries k none) k s →
    s = [] ∨ Forks (after s (Function.update entries k none)) ∨
      Forks (after s.dropLast (Function.update entries k none))

theorem tidy_of_removed {entries : Entries N V} {k : List N}
    (h : Function.update entries k none = fun _ => none) : Tidy entries k := by
  intro s hs
  obtain ⟨t, ht⟩ := hs.met
  rw [h] at ht
  exact absurd rfl ht

theorem tidy_fork {below : N → Entries N V} {i : N} (k : List N)
    (hother : ∃ j t, j ≠ i ∧ below j t ≠ none) :
    Tidy (fork below) (i :: k) ↔ Tidy (below i) k := by
  rw [Tidy, Tidy, update_fork]
  obtain ⟨j, t, hj, ht⟩ := hother
  have hself : Function.update below i (Function.update (below i) k none) i =
      Function.update (below i) k none := Function.update_self ..
  rcases exists_or_none (Function.update (below i) k none) with hne | hgone
  · have hiff := meets_cons_iff (k := k) (hself.symm ▸ hne :
      ∃ t, Function.update below i (Function.update (below i) k none) i t ≠ none)
    have hforks : Forks (fork (Function.update below i (Function.update (below i) k none))) := by
      obtain ⟨t', ht'⟩ := hne
      refine ⟨i, j, t', t, Ne.symm hj, ?_, ?_⟩
      · rwa [fork, hself]
      · rwa [fork, Function.update_of_ne hj]
    constructor
    · intro h s hs
      rcases h (i :: s) ((hiff _).mpr ⟨s, rfl, hself.symm ▸ hs⟩) with hnil | hat | habove
      · cases hnil
      · rw [after_cons, hself] at hat
        exact .inr (.inl hat)
      · cases s with
        | nil => exact .inl rfl
        | cons a s =>
            rw [List.dropLast_cons_of_ne_nil (List.cons_ne_nil a s), after_cons, hself] at habove
            exact .inr (.inr habove)
    · intro h s hs
      obtain ⟨s', rfl, hs'⟩ := (hiff s).mp hs
      rw [hself] at hs'
      cases s' with
      | nil => exact .inr (.inr hforks)
      | cons a s' =>
          rw [List.dropLast_cons_of_ne_nil (List.cons_ne_nil a s'), after_cons, after_cons, hself]
          exact .inr ((h _ hs').resolve_left (List.cons_ne_nil a s'))
  · constructor
    · intro _
      exact tidy_of_removed hgone
    · intro _ s hs
      exact .inl (meets_nil (hself.trans hgone) hs)

theorem meets_under {key : List N} {entries : Entries N V} (hne : ∃ t, entries t ≠ none)
    (k s : List N) :
    Meets (under key entries) (key ++ k) s ↔ ∃ s', s = key ++ s' ∧ Meets entries k s' := by
  induction key generalizing s with
  | nil => simp
  | cons i key ih =>
      have hbelow : ∃ t, only i (under key entries) i t ≠ none := by
        obtain ⟨t, ht⟩ := hne
        exact ⟨key ++ t, by rwa [only_self, under_apply]⟩
      rw [List.cons_append, under_cons, meets_cons_iff hbelow, only_self]
      constructor
      · rintro ⟨s', rfl, hs'⟩
        obtain ⟨s'', rfl, hs''⟩ := (ih s').mp hs'
        exact ⟨s'', rfl, hs''⟩
      · rintro ⟨s', rfl, hs'⟩
        exact ⟨key ++ s', rfl, (ih _).mpr ⟨s', rfl, hs'⟩⟩

theorem after_under (key s : List N) (entries : Entries N V) :
    after (key ++ s) (under key entries) = after s entries := by
  funext t
  rw [after, List.append_assoc, under_apply]
  rfl

-- no fork inside the key of an extension
theorem not_forks_inside {key s : List N} (hs : s <+: key) (hne : s ≠ key) (entries : Entries N V) :
    ¬ Forks (after s (under key entries)) := by
  obtain ⟨rest, rfl⟩ := hs
  have hrest : rest ≠ [] := by
    rintro rfl
    exact hne (List.append_nil s).symm
  have hafter : after s (under (s ++ rest) entries) = under rest entries := by
    funext t
    rw [after, under_append, under_apply]
  rw [hafter]
  exact not_forks_under hrest entries

theorem Forks.update {below : Entries N V} (h : Forks below) {k s : List N}
    (hs : Meets (Function.update below k none) k s) (hne : s ≠ []) :
    Forks (Function.update below k none) := by
  cases s with
  | nil => exact absurd rfl hne
  | cons a s =>
      obtain ⟨t, ht⟩ := hs.met
      obtain ⟨rest, rfl⟩ := hs.isPrefix
      obtain ⟨i, j, u, v, hij, hi, hj⟩ := h
      have hkeep {b : N} {w : List N} (hb : b ≠ a) :
          Function.update below (a :: s ++ rest) none (b :: w) = below (b :: w) :=
        Function.update_of_ne (fun heq => hb (List.cons.inj heq).1) ..
      by_cases hia : i = a
      · have hja : j ≠ a := fun hja => hij (hia.trans hja.symm)
        exact ⟨a, j, s ++ t, v, Ne.symm hja, ht, (hkeep hja).trans_ne hj⟩
      · exact ⟨a, i, s ++ t, u, Ne.symm hia, ht, (hkeep hia).trans_ne hi⟩

theorem Forks.exists_left {below : Entries N V} (h : Forks below) (k : List N) :
    ∃ t, Function.update below k none t ≠ none := by
  obtain ⟨i, j, u, v, hij, hi, hj⟩ := h
  by_cases hu : i :: u = k
  · refine ⟨j :: v, ?_⟩
    rw [Function.update_of_ne]
    · exact hj
    · rintro rfl
      exact hij (List.cons.inj hu).1
  · exact ⟨i :: u, by rwa [Function.update_of_ne hu]⟩

theorem tidy_under {key : List N} (hkey : key ≠ []) {below : Entries N V} (h : Forks below)
    (k : List N) : Tidy (under key below) (key ++ k) ↔
      Tidy below k ∧ Forks (Function.update below k none) := by
  rw [Tidy, Tidy, update_under]
  have hiff (s : List N) : Meets (under key (Function.update below k none)) (key ++ k) s ↔
      ∃ s', s = key ++ s' ∧ Meets (Function.update below k none) k s' :=
    meets_under (h.exists_left k) k s
  constructor
  · intro htidy
    have hat (s : List N) (hs : Meets (Function.update below k none) k s) :
        Forks (after s (Function.update below k none)) ∨
          (s ≠ [] ∧ Forks (after s.dropLast (Function.update below k none))) := by
      rcases htidy (key ++ s) ((hiff _).mpr ⟨s, rfl, hs⟩) with hnil | hat | habove
      · exact absurd (List.append_eq_nil_iff.mp hnil).1 hkey
      · rw [after_under] at hat
        exact .inl hat
      · cases s with
        | nil =>
            rw [List.append_nil] at habove
            obtain ⟨hpre, hne⟩ := dropLast_prefix_ne hkey
            exact absurd habove (not_forks_inside hpre hne _)
        | cons a s =>
            rw [List.dropLast_append_of_ne_nil (List.cons_ne_nil a s), after_under] at habove
            exact .inr ⟨List.cons_ne_nil a s, habove⟩
    refine ⟨fun s hs => .inr ((hat s hs).imp_right And.right), ?_⟩
    obtain ⟨s, hs⟩ := exists_meets (h.exists_left k) k
    by_cases hnil : s = []
    · subst hnil
      exact (hat [] hs).resolve_right (fun hne => hne.1 rfl)
    · exact h.update hs hnil
  · rintro ⟨htidy, hforks⟩ s hs
    obtain ⟨s', rfl, hs'⟩ := (hiff s).mp hs
    rw [after_under]
    rcases htidy s' hs' with rfl | hat | habove
    · exact .inr (.inl hforks)
    · exact .inr (.inl hat)
    · cases s' with
      | nil => exact .inr (.inl hforks)
      | cons a s' =>
          rw [List.dropLast_append_of_ne_nil (List.cons_ne_nil a s'), after_under]
          exact .inr (.inr habove)

-- a key that is not there parts from the entries inside an edge
theorem tidy_parted {shared : List N} {i j : N} (hij : i ≠ j) {below : Entries N V}
    (hne : ∃ t, below t ≠ none) (v : List N) :
    Tidy (under (shared ++ [i]) below) (shared ++ j :: v) ↔ shared = [] := by
  have hpath : under (shared ++ [i]) below = under shared (fork (only i below)) :=
    under_append shared [i] below
  have hsame : Function.update (fork (only i below)) (j :: v) none = fork (only i below) := by
    refine Function.update_eq_self_iff.mpr ?_
    rw [fork, only_of_ne (Ne.symm hij)]
  have hmeets : Meets (fork (only i below)) (j :: v) [] := by
    obtain ⟨t, ht⟩ := hne
    refine ⟨List.nil_prefix, ⟨i :: t, ?_⟩, ?_⟩
    · change fork (only i below) (i :: t) ≠ none
      rwa [fork, only_self]
    · rintro s hs ⟨w, hw⟩
      cases s with
      | nil => exact Nat.le_refl _
      | cons a s =>
          obtain ⟨rfl, -⟩ := List.cons_prefix_cons.mp hs
          rw [List.cons_append, fork, only_of_ne (Ne.symm hij)] at hw
          exact absurd rfl hw
  have hnone : ∃ t, fork (only i below) t ≠ none := by
    obtain ⟨t, ht⟩ := hne
    exact ⟨i :: t, by rwa [fork, only_self]⟩
  rw [Tidy, hpath, update_under, hsame]
  constructor
  · intro h
    by_contra hshared
    rcases h shared ((meets_under hnone _ _).mpr ⟨[], (List.append_nil shared).symm, hmeets⟩) with
      hnil | hat | habove
    · exact hshared hnil
    · have hafter := after_under shared [] (fork (only i below))
      rw [List.append_nil] at hafter
      rw [hafter, after_nil] at hat
      exact not_forks_under (List.cons_ne_nil i []) below hat
    · obtain ⟨hpre, hne'⟩ := dropLast_prefix_ne hshared
      exact not_forks_inside hpre hne' _ habove
  · rintro rfl s hs
    exact .inl (meets_unique hs hmeets)

end

end Patricia
