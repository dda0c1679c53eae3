import Kasane.Lib.OrdMap
import Mathlib.Data.List.Count
import Mathlib.Tactic.SplitIfs

structure SeqQueue (K : Type) where
  head : Nat
  tail : Nat
  entries : OrdMap Nat K

namespace SeqQueue

variable {K : Type}

def empty : SeqQueue K := ⟨0, 0, .empty⟩

def push (q : SeqQueue K) (k : K) : SeqQueue K :=
  { q with tail := q.tail + 1, entries := q.entries.insert q.tail k }

def pop (q : SeqQueue K) : Option (Option K × SeqQueue K) :=
  if q.head = q.tail then none
  else
    match q.entries.get q.head with
    | none => some (none, { q with head := q.head + 1 })
    | some k => some (some k, { q with head := q.head + 1, entries := q.entries.remove q.head })

def drop (q : SeqQueue K) (p : K → Bool) : SeqQueue K :=
  { q with entries := q.entries.filter (fun e => !p e.2) }

structure WellFormed (q : SeqQueue K) : Prop where
  ordered : q.head ≤ q.tail
  bounded : ∀ seq k, q.entries.get seq = some k → q.head ≤ seq ∧ seq < q.tail

theorem wellFormed_empty : (empty : SeqQueue K).WellFormed :=
  ⟨le_refl 0, fun _ _ h => absurd h (by simp [empty])⟩

variable {q q' : SeqQueue K} {k j : K}

theorem WellFormed.fresh (h : q.WellFormed) : q.entries.get q.tail = none := by
  cases hget : q.entries.get q.tail with
  | none => rfl
  | some found => exact absurd (h.bounded q.tail found hget).2 (lt_irrefl _)

theorem WellFormed.push (h : q.WellFormed) (k : K) : (q.push k).WellFormed := by
  refine ⟨h.ordered.trans (Nat.le_succ _), ?_⟩
  intro seq found hfound
  change (q.entries.insert q.tail k).get seq = some found at hfound
  change q.head ≤ seq ∧ seq < q.tail + 1
  have hordered := h.ordered
  rw [OrdMap.get_insert] at hfound
  split_ifs at hfound with hseq
  · subst hseq
    exact ⟨hordered, Nat.lt_succ_self _⟩
  · have hbounded := h.bounded seq found hfound
    omega

theorem WellFormed.drop (h : q.WellFormed) (p : K → Bool) : (q.drop p).WellFormed := by
  refine ⟨h.ordered, ?_⟩
  intro seq found hfound
  exact h.bounded seq found (OrdMap.get_of_filter hfound)

section

variable [DecidableEq K]

def queued (q : SeqQueue K) (k : K) : Bool := q.entries.entries.any (fun e => decide (e.2 = k))

def pushOnce (q : SeqQueue K) (k : K) : SeqQueue K := if q.queued k then q else q.push k

def requeue (ids : List K) (q : SeqQueue K) : SeqQueue K := ids.foldl pushOnce q

def count (q : SeqQueue K) (k : K) : Nat := q.entries.entries.countP (fun e => decide (e.2 = k))

@[simp] theorem count_empty (k : K) : (empty : SeqQueue K).count k = 0 := rfl

theorem count_push (h : q.WellFormed) (k j : K) :
    (q.push k).count j = q.count j + if k = j then 1 else 0 := by
  have hinsert := q.entries.countP_insert q.tail k (fun e => decide (e.2 = j)) h.fresh
  rw [count, SeqQueue.push, hinsert]
  simp [count]

theorem queued_iff : q.queued k = true ↔ 0 < q.count k := by
  rw [queued, count, List.any_eq_true, List.countP_pos_iff]

theorem queued_eq_false_iff : q.queued k = false ↔ q.count k = 0 := by
  rw [← Bool.not_eq_true, queued_iff, Nat.not_lt, Nat.le_zero]

theorem pop_missing (hw : q.WellFormed) (h : q.pop = some (none, q')) :
    q'.WellFormed ∧ ∀ j, q'.count j = q.count j := by
  rw [pop] at h
  split_ifs at h with hends
  cases hget : q.entries.get q.head with
  | some found =>
      rw [hget] at h
      exact absurd h (by simp)
  | none =>
      rw [hget] at h
      obtain ⟨-, rfl⟩ := Prod.mk.inj (Option.some.inj h)
      have hordered := hw.ordered
      refine ⟨⟨?_, ?_⟩, fun _ => rfl⟩
      · dsimp only
        omega
      · intro seq found hfound
        have hbounded := hw.bounded seq found hfound
        have hne : seq ≠ q.head := by
          rintro rfl
          exact absurd (hget.symm.trans hfound) (by simp)
        dsimp only
        omega

theorem pop_some (hw : q.WellFormed) (h : q.pop = some (some k, q')) :
    q'.WellFormed ∧ ∀ j, q'.count j + (if k = j then 1 else 0) = q.count j := by
  rw [pop] at h
  split_ifs at h with hends
  cases hget : q.entries.get q.head with
  | none =>
      rw [hget] at h
      exact absurd h (by simp)
  | some found =>
      rw [hget] at h
      obtain ⟨hk, rfl⟩ := Prod.mk.inj (Option.some.inj h)
      obtain rfl := Option.some.inj hk
      have hordered := hw.ordered
      refine ⟨⟨?_, ?_⟩, ?_⟩
      · dsimp only
        omega
      · intro seq other hother
        change (q.entries.remove q.head).get seq = some other at hother
        rw [OrdMap.get_remove] at hother
        split_ifs at hother with hseq
        have hbounded := hw.bounded seq other hother
        dsimp only
        omega
      · intro j
        have hremove := q.entries.countP_remove q.head found (fun e => decide (e.2 = j)) hget
        simpa [count] using hremove

theorem WellFormed.pushOnce (h : q.WellFormed) (k : K) : (q.pushOnce k).WellFormed := by
  rw [SeqQueue.pushOnce]
  split_ifs
  · exact h
  · exact h.push k

theorem count_pushOnce (h : q.WellFormed) (k j : K) :
    (q.pushOnce k).count j = if k = j then max 1 (q.count j) else q.count j := by
  rw [SeqQueue.pushOnce]
  split_ifs with hqueued hk hk
  · subst hk
    exact (Nat.max_eq_right (queued_iff.mp hqueued)).symm
  · rfl
  · subst hk
    rw [Bool.not_eq_true, queued_eq_false_iff] at hqueued
    rw [count_push h, hqueued, if_pos rfl]
    rfl
  · rw [count_push h, if_neg hk]
    rfl

theorem WellFormed.requeue (h : q.WellFormed) (ids : List K) : (q.requeue ids).WellFormed := by
  induction ids generalizing q with
  | nil => exact h
  | cons k ids ih => exact ih (h.pushOnce k)

theorem count_requeue (h : q.WellFormed) (ids : List K) (j : K) :
    (q.requeue ids).count j = if j ∈ ids then max 1 (q.count j) else q.count j := by
  induction ids generalizing q with
  | nil => simp [SeqQueue.requeue]
  | cons k ids ih =>
      have hunfold : q.requeue (k :: ids) = (q.pushOnce k).requeue ids := rfl
      rw [hunfold, ih (h.pushOnce k), count_pushOnce h]
      by_cases hk : k = j
      · subst hk
        simp
      · simp [hk, Ne.symm hk]

theorem count_drop (q : SeqQueue K) (p : K → Bool) (j : K) :
    (q.drop p).count j = if p j then 0 else q.count j := by
  change (q.entries.entries.filter (fun e => !p e.2)).countP (fun e => decide (e.2 = j)) = _
  rw [List.countP_filter]
  split_ifs with hp
  · apply List.countP_eq_zero.mpr
    intro e _ he
    rw [Bool.and_eq_true, decide_eq_true_eq] at he
    obtain ⟨rfl, hkeep⟩ := he
    simp [hp] at hkeep
  · apply List.countP_congr
    intro e _
    constructor
    · intro he
      exact (Bool.and_eq_true _ _ ▸ he).1
    · intro he
      obtain rfl := of_decide_eq_true he
      simpa using hp

end

end SeqQueue
