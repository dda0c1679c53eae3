import Kasane.Lib.SeqQueue
import Kasane.Trie.Applied

namespace Kasane.Trie

open BigEndian Word

variable {H : Type} [LinearOrder H]

namespace NodeStore

variable {s s' : NodeStore H}

def queue (s : NodeStore H) : SeqQueue H := ⟨s.gcState.dequeueSeq, s.gcState.enqueueSeq, s.gcQueue⟩

-- the queue holds one hash for each number of its window, and its length is the window's
structure Window (s : NodeStore H) : Prop where
  wellFormed : s.queue.WellFormed
  full : ∀ seq, s.gcState.dequeueSeq ≤ seq → seq < s.gcState.enqueueSeq → s.gcQueue.get seq ≠ none
  len : s.gcState.dequeueSeq + s.gcState.len = s.gcState.enqueueSeq
  counted : s.gcState.enqueueSeq ≤ u64Max

theorem window_empty : (empty : NodeStore H).Window where
  wellFormed := SeqQueue.wellFormed_empty
  full := fun _ _ h => absurd h (Nat.not_lt_zero _)
  len := rfl
  counted := Nat.zero_le _

-- the collector's part of the store is the same
structure SameQueue (s s' : NodeStore H) : Prop where
  gcQueue : s'.gcQueue = s.gcQueue
  gcState : s'.gcState = s.gcState

theorem SameQueue.window (h : SameQueue s s') (hw : s.Window) : s'.Window := by
  obtain ⟨hqueue, hstate⟩ := h
  refine ⟨?_, ?_, ?_, ?_⟩
  · rw [queue, hqueue, hstate]
    exact hw.wellFormed
  · rw [hqueue, hstate]
    exact hw.full
  · rw [hstate]
    exact hw.len
  · rw [hstate]
    exact hw.counted

theorem sameQueue_putRecord (s : NodeStore H) (e : H × Bytes) : SameQueue s (s.putRecord e) := by
  rw [putRecord]
  cases s.nodeDb.get e.1 with
  | none => exact ⟨rfl, rfl⟩
  | some existing =>
      dsimp only
      split_ifs
      · exact ⟨rfl, rfl⟩
      · exact ⟨rfl, rfl⟩

theorem sameQueue_putRecords (s : NodeStore H) (es : List (H × Bytes)) :
    SameQueue s (es.foldl putRecord s) := by
  induction es generalizing s with
  | nil => exact ⟨rfl, rfl⟩
  | cons e es ih =>
      have hstep := sameQueue_putRecord s e
      have hrest := ih (s.putRecord e)
      exact ⟨hrest.gcQueue.trans hstep.gcQueue, hrest.gcState.trans hstep.gcState⟩

theorem window_enqueue (h : s.Window) (hash : H) (hroom : s.gcState.enqueueSeq < u64Max) :
    (s.enqueueGcHash hash).Window := by
  have hseq : saturatingAdd u64Max s.gcState.enqueueSeq 1 = s.gcState.enqueueSeq + 1 :=
    Nat.min_eq_left hroom
  have hlen := h.len
  have hcount : saturatingAdd u64Max s.gcState.len 1 = s.gcState.len + 1 :=
    Nat.min_eq_left (by omega)
  refine ⟨?_, fun seq hle hlt => ?_, ?_, ?_⟩
  · have hpush := h.wellFormed.push hash
    rw [queue, enqueueGcHash]
    dsimp only
    rw [hseq]
    exact hpush
  · rw [enqueueGcHash] at hle hlt ⊢
    dsimp only at hle hlt ⊢
    rw [hseq] at hlt
    rw [OrdMap.get_insert]
    split_ifs with hsame
    · exact Option.some_ne_none _
    · exact h.full seq hle (by omega)
  · rw [enqueueGcHash]
    dsimp only
    rw [hseq, hcount]
    omega
  · rw [enqueueGcHash]
    dsimp only
    rw [hseq]
    exact hroom

-- what counting one hash does to the queue: nothing, or one hash more at its end
theorem countRecord_queue (emptyRoot : H) (s : NodeStore H) (e : H × Int) :
    SameQueue s (s.countRecord emptyRoot e) ∨
      SameQueue (s.enqueueGcHash e.1) (s.countRecord emptyRoot e) ∧
        (∃ record, s.nodeDb.get e.1 = some record ∧ 0 < record.refcnt) := by
  rw [countRecord]
  rcases eq_or_ne e.2 0 with hzero | hzero
  · rw [if_pos hzero]
    exact .inl ⟨rfl, rfl⟩
  · rw [if_neg hzero]
    cases hget : s.nodeDb.get e.1 with
    | none =>
        dsimp only
        split_ifs
        · exact .inl ⟨rfl, rfl⟩
        · exact .inl ⟨rfl, rfl⟩
    | some record =>
        dsimp only
        split_ifs with hdrops
        · exact .inr ⟨⟨rfl, rfl⟩, record, rfl, hdrops.1⟩
        · exact .inl ⟨rfl, rfl⟩

theorem room_countRecord (emptyRoot : H) (s : NodeStore H) (e : H × Int)
    (h : (s.countRecord emptyRoot e).gcState.enqueueSeq < u64Max) :
    s.gcState.enqueueSeq < u64Max := by
  rcases countRecord_queue emptyRoot s e with hsame | ⟨hsame, -⟩
  · rwa [hsame.gcState] at h
  · rw [hsame.gcState, enqueueGcHash] at h
    dsimp only at h
    rw [saturatingAdd] at h
    omega

theorem room_countRecords (emptyRoot : H) (es : List (H × Int))
    (h : (es.foldl (countRecord emptyRoot) s).gcState.enqueueSeq < u64Max) :
    s.gcState.enqueueSeq < u64Max := by
  induction es generalizing s with
  | nil => exact h
  | cons e es ih => exact room_countRecord emptyRoot s e (ih h)

theorem window_countRecord (emptyRoot : H) (h : s.Window) (e : H × Int)
    (hroom : (s.countRecord emptyRoot e).gcState.enqueueSeq < u64Max) :
    (s.countRecord emptyRoot e).Window := by
  rcases countRecord_queue emptyRoot s e with hsame | ⟨hsame, -⟩
  · exact hsame.window h
  · exact hsame.window (window_enqueue h e.1 (room_countRecord emptyRoot s e hroom))

theorem window_countRecords (emptyRoot : H) (es : List (H × Int)) (h : s.Window)
    (hroom : (es.foldl (countRecord emptyRoot) s).gcState.enqueueSeq < u64Max) :
    (es.foldl (countRecord emptyRoot) s).Window := by
  induction es generalizing s with
  | nil => exact h
  | cons e es ih => exact ih (window_countRecord emptyRoot h e (room_countRecords emptyRoot es hroom)) hroom

-- a hash that waits among the next numbers of the queue
def Due (s : NodeStore H) (n : Nat) (hash : H) : Prop :=
  ∃ seq, seq < s.gcState.dequeueSeq + n ∧ s.gcQueue.get seq = some hash

-- what a tick of the collector leaves of the records
structure Collected (n : Nat) (s s' : NodeStore H) : Prop where
  window : s'.Window
  enqueueSeq : s'.gcState.enqueueSeq = s.gcState.enqueueSeq
  len : s'.gcState.len = s.gcState.len - n
  queue : ∀ seq, s'.gcQueue.get seq =
    if seq < s.gcState.dequeueSeq + n then none else s.gcQueue.get seq
  dropped : ∀ hash record, s.nodeDb.get hash = some record → record.refcnt = 0 → s.Due n hash →
    s'.nodeDb.get hash = none
  kept : ∀ hash, (∀ record, s.nodeDb.get hash = some record → 0 < record.refcnt) ∨ ¬ s.Due n hash →
    s'.nodeDb.get hash = s.nodeDb.get hash

theorem get_collect (s : NodeStore H) (dropped hash : H) :
    (s.collect dropped).nodeDb.get hash =
      if hash = dropped ∧ (s.nodeDb.get dropped).map NodeRecord.refcnt = some 0 then none
      else s.nodeDb.get hash := by
  rw [collect]
  cases hget : s.nodeDb.get dropped with
  | none => simp
  | some record =>
      dsimp only
      split_ifs with hzero hdrop hdrop
      · dsimp only
        rw [OrdMap.get_remove, if_pos hdrop.1]
      · dsimp only
        rw [OrdMap.get_remove, if_neg (fun heq => hdrop ⟨heq, by simp [hzero]⟩)]
      · simp [hzero] at hdrop
      · rfl

structure Steps (s s' : NodeStore H) : Prop where
  gcState : s'.gcState = ⟨s.gcState.enqueueSeq, s.gcState.dequeueSeq + 1, s.gcState.len - 1⟩
  gcQueue : s'.gcQueue = s.gcQueue.remove s.gcState.dequeueSeq
  nodeDb : ∃ dropped, s.gcQueue.get s.gcState.dequeueSeq = some dropped ∧
    s'.nodeDb = (s.collect dropped).nodeDb

theorem sameQueue_collect (s : NodeStore H) (dropped : H) : SameQueue s (s.collect dropped) := by
  rw [collect]
  cases s.nodeDb.get dropped with
  | none => exact ⟨rfl, rfl⟩
  | some record =>
      dsimp only
      split_ifs
      · exact ⟨rfl, rfl⟩
      · exact ⟨rfl, rfl⟩

theorem steps_gcStep (h : s.Window) (hlen : 0 < s.gcState.len) : Steps s s.gcStep := by
  have hends := h.len
  have hcounted := h.counted
  obtain ⟨dropped, hdropped⟩ := Option.ne_none_iff_exists'.mp
    (h.full s.gcState.dequeueSeq le_rfl (by omega))
  have hseq : saturatingAdd u64Max s.gcState.dequeueSeq 1 = s.gcState.dequeueSeq + 1 :=
    Nat.min_eq_left (by omega)
  have hsame := sameQueue_collect { s with gcQueue := s.gcQueue.remove s.gcState.dequeueSeq } dropped
  rw [gcStep]
  dsimp only
  rw [hdropped]
  dsimp only
  rw [hsame.gcState]
  dsimp only
  rw [hseq]
  refine ⟨rfl, hsame.gcQueue, dropped, hdropped, ?_⟩
  dsimp only
  rw [collect, collect]
  dsimp only
  cases s.nodeDb.get dropped with
  | none => rfl
  | some record =>
      dsimp only
      split_ifs
      · rfl
      · rfl

theorem Steps.window (h : Steps s s') (hw : s.Window) (hlen : 0 < s.gcState.len) : s'.Window := by
  have hends := hw.len
  refine ⟨⟨?_, ?_⟩, ?_, ?_, ?_⟩
  · change s'.gcState.dequeueSeq ≤ s'.gcState.enqueueSeq
    rw [h.gcState]
    dsimp only
    omega
  · intro seq hash hget
    change s'.gcQueue.get seq = some hash at hget
    change s'.gcState.dequeueSeq ≤ seq ∧ seq < s'.gcState.enqueueSeq
    rw [h.gcQueue, OrdMap.get_remove] at hget
    rw [h.gcState]
    split_ifs at hget with hseq
    have hbounded : s.gcState.dequeueSeq ≤ seq ∧ seq < s.gcState.enqueueSeq :=
      hw.wellFormed.bounded seq hash hget
    dsimp only
    omega
  · intro seq hle hlt
    rw [h.gcState] at hle hlt
    dsimp only at hle hlt
    rw [h.gcQueue, OrdMap.get_remove, if_neg (by omega)]
    exact hw.full seq (by omega) hlt
  · rw [h.gcState]
    dsimp only
    omega
  · rw [h.gcState]
    exact hw.counted

theorem Steps.due (h : Steps s s') (hw : s.Window) {n : Nat} {hash : H} :
    s.Due (n + 1) hash ↔ s.gcQueue.get s.gcState.dequeueSeq = some hash ∨ s'.Due n hash := by
  rw [Due, Due, h.gcState, h.gcQueue]
  dsimp only
  constructor
  · rintro ⟨seq, hlt, hget⟩
    rcases eq_or_ne seq s.gcState.dequeueSeq with rfl | hne
    · exact .inl hget
    · refine .inr ⟨seq, by omega, ?_⟩
      rw [OrdMap.get_remove, if_neg hne]
      exact hget
  · rintro (hget | ⟨seq, hlt, hget⟩)
    · exact ⟨_, by omega, hget⟩
    · rw [OrdMap.get_remove] at hget
      split_ifs at hget
      exact ⟨seq, by omega, hget⟩

theorem collected_zero (h : s.Window) : Collected 0 s s := by
  have hnone (hash : H) : ¬ s.Due 0 hash := by
    rintro ⟨seq, hlt, hget⟩
    have hbounded : s.gcState.dequeueSeq ≤ seq ∧ seq < s.gcState.enqueueSeq :=
      h.wellFormed.bounded seq hash hget
    omega
  refine ⟨h, rfl, rfl, fun seq => ?_, fun hash _ _ _ hdue => absurd hdue (hnone hash), fun _ _ => rfl⟩
  split_ifs with hlt
  · cases hget : s.gcQueue.get seq with
    | none => rfl
    | some hash => exact absurd ⟨seq, hlt, hget⟩ (hnone hash)
  · rfl

theorem collected_idle (h : s.Window) (hidle : s.gcState.len = 0) (n : Nat) : Collected n s s := by
  have hends := h.len
  have hnone (seq : Nat) : s.gcQueue.get seq = none := by
    cases hget : s.gcQueue.get seq with
    | none => rfl
    | some hash =>
        have hbounded : s.gcState.dequeueSeq ≤ seq ∧ seq < s.gcState.enqueueSeq :=
          h.wellFormed.bounded seq hash hget
        omega
  refine ⟨h, rfl, by omega, fun seq => ?_, fun hash _ _ _ hdue => ?_, fun _ _ => rfl⟩
  · rw [hnone, ite_self]
  · obtain ⟨seq, -, hget⟩ := hdue
    rw [hnone] at hget
    cases hget

theorem Steps.collected (h : Steps s s') (hw : s.Window) {n : Nat} {t : NodeStore H}
    (hrest : Collected n s' t) : Collected (n + 1) s t := by
  obtain ⟨dropped, hhead, hdb⟩ := h.nodeDb
  have hget (hash : H) := get_collect s dropped hash
  rw [← hdb] at hget
  refine ⟨hrest.window, ?_, ?_, fun seq => ?_, fun hash record hrecord hzero hdue => ?_,
    fun hash hspared => ?_⟩
  · rw [hrest.enqueueSeq, h.gcState]
  · rw [hrest.len, h.gcState]
    dsimp only
    omega
  · rw [hrest.queue, h.gcState, h.gcQueue]
    dsimp only
    rw [OrdMap.get_remove]
    split_ifs
    · rfl
    · omega
    · omega
    · omega
    · omega
    · rfl
  · have hstep := hget hash
    rcases (h.due hw).mp hdue with hnow | hlater
    · obtain rfl := Option.some.inj (hhead.symm.trans hnow)
      rw [if_pos ⟨rfl, by simp [hrecord, hzero]⟩] at hstep
      rw [hrest.kept dropped (.inl (fun record' hrecord' => by rw [hstep] at hrecord'; cases hrecord'))]
      exact hstep
    · split_ifs at hstep with hcollected
      · rw [hrest.kept hash (.inl (fun record' hrecord' => by rw [hstep] at hrecord'; cases hrecord'))]
        exact hstep
      · exact hrest.dropped hash record (hstep.trans hrecord) hzero hlater
  · have hsame : s'.nodeDb.get hash = s.nodeDb.get hash := by
      refine (hget hash).trans (if_neg ?_)
      rintro ⟨rfl, hzero⟩
      obtain ⟨record, hrecord, hzero⟩ := Option.map_eq_some_iff.mp hzero
      rcases hspared with hpositive | hlater
      · exact absurd (hpositive record hrecord) (by omega)
      · exact hlater ((h.due hw).mpr (.inl hhead))
    refine (hrest.kept hash ?_).trans hsame
    rw [hsame]
    exact hspared.imp_right (fun hlater hdue => hlater ((h.due hw).mpr (.inr hdue)))

theorem collected_runGcTick (n : Nat) (h : s.Window) : Collected n s (runGcTick n s) := by
  induction n generalizing s with
  | zero => exact collected_zero h
  | succ n ih =>
      rw [runGcTick]
      split_ifs with hlen
      · have hstep := steps_gcStep h hlen
        exact hstep.collected h (ih (hstep.window h hlen))
      · exact collected_idle h (by omega) (n + 1)

theorem runGcTick_idle (hidle : s.gcState.len = 0) (n : Nat) : runGcTick n s = s := by
  cases n with
  | zero => rfl
  | succ n => rw [runGcTick, if_neg (by omega)]

-- how the ticks are cut does not matter
theorem runGcTick_add (m n : Nat) (s : NodeStore H) :
    runGcTick (m + n) s = runGcTick n (runGcTick m s) := by
  induction m generalizing s with
  | zero => rw [Nat.zero_add, runGcTick]
  | succ m ih =>
      rw [Nat.add_right_comm, runGcTick, runGcTick]
      split_ifs with hlen
      · exact ih s.gcStep
      · exact (runGcTick_idle (by omega) n).symm

def runGcTicks (ticks : List Nat) (s : NodeStore H) : NodeStore H :=
  ticks.foldl (fun s maxSteps => runGcTick maxSteps s) s

theorem runGcTicks_sum (ticks : List Nat) (s : NodeStore H) :
    runGcTicks ticks s = runGcTick ticks.sum s := by
  induction ticks generalizing s with
  | nil => rfl
  | cons n ticks ih =>
      rw [List.sum_cons, runGcTick_add]
      exact ih (runGcTick n s)

theorem enqueueSeq_runGcTick (n : Nat) (s : NodeStore H) :
    (runGcTick n s).gcState.enqueueSeq = s.gcState.enqueueSeq := by
  induction n generalizing s with
  | zero => rfl
  | succ n ih =>
      rw [runGcTick]
      split_ifs
      · rw [ih, gcStep]
        dsimp only
        cases s.gcQueue.get s.gcState.dequeueSeq with
        | none => rfl
        | some dropped => exact congrArg GcState.enqueueSeq (sameQueue_collect _ dropped).gcState
      · rfl

-- the store of a journal's records and counts, before the collector runs
def counted (emptyRoot : H) (s : NodeStore H) (journal : JournalUpdate H) : NodeStore H :=
  (mergeAnchorDelta journal.nodeDeltaCounts journal.anchorDelta).entries.foldl
    (countRecord emptyRoot) (journal.newNodeRecords.entries.foldl putRecord s)

theorem sameQueue_refreshMetrics (s : NodeStore H) : SameQueue s s.refreshMetrics := ⟨rfl, rfl⟩

theorem room_applyJournal (emptyRoot : H) (s : NodeStore H) (journal : JournalUpdate H)
    (h : (s.applyJournal emptyRoot journal).gcState.enqueueSeq < u64Max) :
    (s.counted emptyRoot journal).gcState.enqueueSeq < u64Max ∧ s.gcState.enqueueSeq < u64Max := by
  have hcounted : (s.counted emptyRoot journal).gcState.enqueueSeq < u64Max := by
    rw [← enqueueSeq_runGcTick 256]
    exact h
  have hput := room_countRecords emptyRoot _ hcounted
  rw [(sameQueue_putRecords s _).gcState] at hput
  exact ⟨hcounted, hput⟩

theorem window_counted (emptyRoot : H) (h : s.Window) (journal : JournalUpdate H)
    (hroom : (s.counted emptyRoot journal).gcState.enqueueSeq < u64Max) :
    (s.counted emptyRoot journal).Window :=
  window_countRecords emptyRoot _ ((sameQueue_putRecords s _).window h) hroom

theorem window_applyJournal (emptyRoot : H) (h : s.Window) (journal : JournalUpdate H)
    (hroom : (s.applyJournal emptyRoot journal).gcState.enqueueSeq < u64Max) :
    (s.applyJournal emptyRoot journal).Window := by
  have hcounted := window_counted emptyRoot h journal (room_applyJournal emptyRoot s journal hroom).1
  exact (sameQueue_refreshMetrics _).window (collected_runGcTick 256 hcounted).window

def applyJournals (emptyRoot : H) (journals : List (JournalUpdate H)) (s : NodeStore H) :
    NodeStore H := journals.foldl (applyJournal emptyRoot) s

theorem room_applyJournals (emptyRoot : H) (journals : List (JournalUpdate H))
    (h : (applyJournals emptyRoot journals s).gcState.enqueueSeq < u64Max) :
    s.gcState.enqueueSeq < u64Max := by
  induction journals generalizing s with
  | nil => exact h
  | cons journal journals ih => exact (room_applyJournal emptyRoot s journal (ih h)).2

theorem window_applyJournals (emptyRoot : H) (journals : List (JournalUpdate H)) (h : s.Window)
    (hroom : (applyJournals emptyRoot journals s).gcState.enqueueSeq < u64Max) :
    (applyJournals emptyRoot journals s).Window := by
  induction journals generalizing s with
  | nil => exact h
  | cons journal journals ih =>
      exact ih (window_applyJournal emptyRoot h journal (room_applyJournals emptyRoot journals hroom))
        hroom

def Waits (s : NodeStore H) (hash : H) : Prop := ∃ seq, s.gcQueue.get seq = some hash

theorem due_of_waits (h : s.Window) {n : Nat} (hlong : s.gcState.len ≤ n) (hash : H) :
    s.Due n hash ↔ s.Waits hash := by
  have hends := h.len
  constructor
  · rintro ⟨seq, -, hget⟩
    exact ⟨seq, hget⟩
  · rintro ⟨seq, hget⟩
    have hbounded : s.gcState.dequeueSeq ≤ seq ∧ seq < s.gcState.enqueueSeq :=
      h.wellFormed.bounded seq hash hget
    exact ⟨seq, by omega, hget⟩

-- the queue is empty, and gone are the records without counts that waited in it
structure Drained (s s' : NodeStore H) : Prop where
  len : s'.gcState.len = 0
  queue : s'.gcQueue = .empty
  records : ∀ hash record, s'.nodeDb.get hash = some record ↔
    s.nodeDb.get hash = some record ∧ (0 < record.refcnt ∨ ¬ s.Waits hash)

theorem drained_runGcTick (h : s.Window) {n : Nat} (hlong : s.gcState.len ≤ n) :
    Drained s (runGcTick n s) := by
  have hends := h.len
  have hcollected := collected_runGcTick n h
  refine ⟨?_, OrdMap.ext_get (fun seq => ?_), fun hash record => ?_⟩
  · rw [hcollected.len]
    omega
  · rw [hcollected.queue]
    split_ifs with hlt
    · rfl
    · cases hget : s.gcQueue.get seq with
      | none => rfl
      | some hash =>
          have hbounded : s.gcState.dequeueSeq ≤ seq ∧ seq < s.gcState.enqueueSeq :=
            h.wellFormed.bounded seq hash hget
          omega
  · have hdue := due_of_waits h hlong hash
    constructor
    · intro hget
      cases hold : s.nodeDb.get hash with
      | none =>
          rw [hcollected.kept hash (.inl (fun _ hnew => absurd (hold.symm.trans hnew) (by simp))),
            hold] at hget
          cases hget
      | some old =>
          rcases Nat.eq_zero_or_pos old.refcnt with hzero | hpositive
          · have hwaits : ¬ s.Waits hash := by
              intro hwaits
              rw [hcollected.dropped hash old hold hzero (hdue.mpr hwaits)] at hget
              cases hget
            rw [hcollected.kept hash (.inr (fun hd => hwaits (hdue.mp hd))), hold] at hget
            exact ⟨hget, .inr hwaits⟩
          · have hkept := hcollected.kept hash (.inl (fun record' hrecord' => by
              obtain rfl := Option.some.inj (hold.symm.trans hrecord')
              exact hpositive))
            rw [hkept, hold] at hget
            obtain rfl := Option.some.inj hget
            exact ⟨rfl, .inl hpositive⟩
    · rintro ⟨hget, hspared⟩
      refine (hcollected.kept hash ?_).trans hget
      refine hspared.imp (fun hpositive record' hrecord' => ?_) (fun hwaits hd => hwaits (hdue.mp hd))
      obtain rfl := Option.some.inj (hget.symm.trans hrecord')
      exact hpositive

-- a collection goes through the whole queue, however it is cut into ticks, and takes nothing else
theorem collector_drains (emptyRoot : H) {journals : List (JournalUpdate H)}
    (hroom : (applyJournals emptyRoot journals empty).gcState.enqueueSeq < u64Max)
    {ticks : List Nat}
    (hlong : (applyJournals emptyRoot journals empty).gcState.len ≤ ticks.sum) :
    (applyJournals emptyRoot journals empty).Window ∧
      Drained (applyJournals emptyRoot journals empty)
        (runGcTicks ticks (applyJournals emptyRoot journals empty)) := by
  have hwindow := window_applyJournals emptyRoot journals window_empty hroom
  refine ⟨hwindow, ?_⟩
  rw [runGcTicks_sum]
  exact drained_runGcTick hwindow hlong

def sampleJournal : JournalUpdate Nat :=
  ⟨(OrdMap.empty.insert 1 1).insert 2 1, (OrdMap.empty.insert 1 [7]).insert 2 [8], .default⟩

def laterJournal : JournalUpdate Nat := ⟨OrdMap.empty.insert 1 (-1), .empty, .default⟩

theorem collector_drains_sample : (applyJournals 0 [sampleJournal, laterJournal] empty).Window ∧
    Drained (applyJournals 0 [sampleJournal, laterJournal] empty)
      (runGcTicks [1, 2] (applyJournals 0 [sampleJournal, laterJournal] empty)) :=
  collector_drains 0 (by decide) (by decide)

-- a record without counts is on its way to be collected
def Tended (s : NodeStore H) (hash : H) : Prop :=
  ∀ record, s.nodeDb.get hash = some record → 0 < record.refcnt ∨ s.Waits hash

theorem waits_enqueue (h : s.Window) (hroom : s.gcState.enqueueSeq < u64Max) (dropped hash : H) :
    (s.enqueueGcHash dropped).Waits hash ↔ hash = dropped ∨ s.Waits hash := by
  rw [Waits, enqueueGcHash]
  dsimp only
  constructor
  · rintro ⟨seq, hget⟩
    rw [OrdMap.get_insert] at hget
    split_ifs at hget
    · exact .inl (Option.some.inj hget).symm
    · exact .inr ⟨seq, hget⟩
  · rintro (rfl | ⟨seq, hget⟩)
    · exact ⟨s.gcState.enqueueSeq, by rw [OrdMap.get_insert, if_pos rfl]⟩
    · have hbounded : s.gcState.dequeueSeq ≤ seq ∧ seq < s.gcState.enqueueSeq :=
        h.wellFormed.bounded seq hash hget
      refine ⟨seq, ?_⟩
      rw [OrdMap.get_insert, if_neg (by omega)]
      exact hget

theorem tended_countRecord (emptyRoot : H) (h : s.Window) (e : H × Int)
    (hroom : s.gcState.enqueueSeq < u64Max) {hash : H} (htended : s.Tended hash) :
    (s.countRecord emptyRoot e).Tended hash := by
  rw [countRecord]
  rcases eq_or_ne e.2 0 with hzero | hzero
  · rw [if_pos hzero]
    exact htended
  · rw [if_neg hzero]
    cases hget : s.nodeDb.get e.1 with
    | none =>
        dsimp only
        split_ifs
        · exact htended
        · exact htended
    | some old =>
        have hother (record : NodeRecord) (hne : hash ≠ e.1)
            (hrecord : (s.nodeDb.insert e.1 { old with refcnt := nextCount old.refcnt e.2 }).get hash =
              some record) : 0 < record.refcnt ∨ s.Waits hash := by
          rw [OrdMap.get_insert, if_neg hne] at hrecord
          exact htended record hrecord
        dsimp only
        split_ifs with hdrops
        · intro record hrecord
          rcases eq_or_ne hash e.1 with rfl | hne
          · exact .inr ((waits_enqueue h hroom e.1 e.1).mpr (.inl rfl))
          · exact (hother record hne hrecord).imp id
              (fun hwaits => (waits_enqueue h hroom e.1 hash).mpr (.inr hwaits))
        · intro record hrecord
          rcases eq_or_ne hash e.1 with rfl | hne
          · dsimp only at hrecord
            rw [OrdMap.get_insert, if_pos rfl] at hrecord
            obtain rfl := Option.some.inj hrecord
            rcases Nat.eq_zero_or_pos (nextCount old.refcnt e.2) with hnext | hnext
            · rcases htended old hget with hpositive | hwaits
              · exact absurd ⟨hpositive, hnext⟩ hdrops
              · exact .inr hwaits
            · exact .inl hnext
          · exact hother record hne hrecord

theorem tended_countRecords (emptyRoot : H) (es : List (H × Int)) (h : s.Window)
    (hroom : (es.foldl (countRecord emptyRoot) s).gcState.enqueueSeq < u64Max) {hash : H}
    (htended : s.Tended hash) : (es.foldl (countRecord emptyRoot) s).Tended hash := by
  induction es generalizing s with
  | nil => exact htended
  | cons e es ih =>
      have hnext := room_countRecords emptyRoot es hroom
      exact ih (window_countRecord emptyRoot h e hnext) hroom
        (tended_countRecord emptyRoot h e (room_countRecord emptyRoot s e hnext) htended)

theorem Collected.tended {n : Nat} (h : Collected n s s') {hash : H} (htended : s.Tended hash) :
    s'.Tended hash := by
  intro record hrecord
  cases hold : s.nodeDb.get hash with
  | none =>
      rw [h.kept hash (.inl (fun _ hnew => absurd (hold.symm.trans hnew) (by simp))), hold] at hrecord
      cases hrecord
  | some old =>
      rcases Nat.eq_zero_or_pos old.refcnt with hzero | hpositive
      · have hdue : ¬ s.Due n hash := by
          intro hdue
          rw [h.dropped hash old hold hzero hdue] at hrecord
          cases hrecord
        rcases htended old hold with hpositive | ⟨seq, hget⟩
        · omega
        · refine .inr ⟨seq, ?_⟩
          rw [h.queue, if_neg (fun hlt => hdue ⟨seq, hlt, hget⟩)]
          exact hget
      · rw [h.kept hash (.inl (fun record' hrecord' => by
          obtain rfl := Option.some.inj (hold.symm.trans hrecord')
          exact hpositive)), hold] at hrecord
        obtain rfl := Option.some.inj hrecord
        exact .inl hpositive

theorem get_putRecord_of_same (s : NodeStore H) (e : H × Bytes) (hash : H)
    (h : hash = e.1 → s.bytesAt hash = some e.2) :
    (s.putRecord e).nodeDb.get hash = s.nodeDb.get hash := by
  have hinsert (hne : hash ≠ e.1) : (s.nodeDb.insert e.1 ⟨0, e.2⟩).get hash = s.nodeDb.get hash := by
    rw [OrdMap.get_insert, if_neg hne]
  rw [putRecord]
  cases hget : s.nodeDb.get e.1 with
  | none =>
      refine hinsert (fun heq => ?_)
      have hbytes := h heq
      rw [bytesAt, heq, hget] at hbytes
      cases hbytes
  | some existing =>
      dsimp only
      split_ifs with hsame
      · rfl
      · refine hinsert (fun heq => hsame ?_)
        have hbytes := h heq
        rw [bytesAt, heq, hget] at hbytes
        exact Option.some.inj hbytes

theorem get_putRecords_of_same {records : List (H × Bytes)} {hash : H} {raw : Bytes}
    (hbytes : s.bytesAt hash = some raw) (h : ∀ e ∈ records, e.1 = hash → e.2 = raw) :
    (records.foldl putRecord s).nodeDb.get hash = s.nodeDb.get hash := by
  induction records generalizing s with
  | nil => rfl
  | cons e records ih =>
      have hput := get_putRecord_of_same s e hash (fun heq => by
        rw [hbytes, h e List.mem_cons_self heq.symm])
      refine Eq.trans (ih ?_ (fun e' he' => h e' (List.mem_cons_of_mem _ he'))) hput
      rw [bytesAt, hput]
      exact hbytes

theorem tended_applyJournal (emptyRoot : H) (h : s.Window) (journal : JournalUpdate H)
    (hroom : (s.applyJournal emptyRoot journal).gcState.enqueueSeq < u64Max) {hash : H} {raw : Bytes}
    (hbefore : s.bytesAt hash = some raw)
    (hafter : (s.applyJournal emptyRoot journal).bytesAt hash = some raw) (htended : s.Tended hash) :
    (s.applyJournal emptyRoot journal).Tended hash := by
  have hcounted := (room_applyJournal emptyRoot s journal hroom).1
  have hput : (journal.newNodeRecords.entries.foldl putRecord s).nodeDb.get hash =
      s.nodeDb.get hash := by
    refine get_putRecords_of_same hbefore (fun e he heq => ?_)
    have hrecord : journal.newNodeRecords.get hash = some e.2 := by
      rw [← heq]
      exact OrdMap.mem_entries.mp he
    have hor := bytesAt_applyJournal emptyRoot s journal hafter
    rw [hrecord] at hor
    exact Option.some.inj hor
  have hsame := sameQueue_putRecords s journal.newNodeRecords.entries
  have htendedPut : (journal.newNodeRecords.entries.foldl putRecord s).Tended hash := by
    intro record hrecord
    rw [hput] at hrecord
    rw [Waits, hsame.gcQueue]
    exact htended record hrecord
  exact (collected_runGcTick 256 (window_counted emptyRoot h journal hcounted)).tended
    (tended_countRecords emptyRoot _ (hsame.window h) hcounted htendedPut)

theorem tended_applyJournals (emptyRoot : H) {journals : List (JournalUpdate H)} (h : s.Window)
    (hroom : (applyJournals emptyRoot journals s).gcState.enqueueSeq < u64Max) {hash : H} {raw : Bytes}
    (hstays : ∀ k, (applyJournals emptyRoot (journals.take k) s).bytesAt hash = some raw)
    (htended : s.Tended hash) : (applyJournals emptyRoot journals s).Tended hash := by
  induction journals generalizing s with
  | nil => exact htended
  | cons journal journals ih =>
      have hnext := room_applyJournals emptyRoot journals hroom
      exact ih (window_applyJournal emptyRoot h journal hnext) hroom (fun k => hstays (k + 1))
        (tended_applyJournal emptyRoot h journal hnext (hstays 0) (hstays 1) htended)

-- a record that was counted once and has stayed in the store is counted still, or collected
theorem counted_never_leaks (emptyRoot : H) {before after : List (JournalUpdate H)}
    (hroom : (applyJournals emptyRoot (before ++ after) empty).gcState.enqueueSeq < u64Max)
    {hash : H} {record : NodeRecord}
    (hrecord : (applyJournals emptyRoot before empty).nodeDb.get hash = some record)
    (hcounted : 0 < record.refcnt)
    (hstays : ∀ k, (applyJournals emptyRoot (before ++ after.take k) empty).bytesAt hash =
      some record.rlp) {ticks : List Nat}
    (hlong : (applyJournals emptyRoot (before ++ after) empty).gcState.len ≤ ticks.sum)
    {left : NodeRecord} (hleft : (runGcTicks ticks
      (applyJournals emptyRoot (before ++ after) empty)).nodeDb.get hash = some left) :
    0 < left.refcnt := by
  have happend (journals : List (JournalUpdate H)) :
      applyJournals emptyRoot (before ++ journals) empty =
        applyJournals emptyRoot journals (applyJournals emptyRoot before empty) := List.foldl_append
  have hwindow := window_applyJournals emptyRoot _ window_empty hroom
  rw [runGcTicks_sum] at hleft
  obtain ⟨hget, hspared⟩ := ((drained_runGcTick hwindow hlong).records hash left).mp hleft
  rw [happend] at hroom hget hspared
  have hstart : (applyJournals emptyRoot before empty).Tended hash := by
    intro record' hrecord'
    obtain rfl := Option.some.inj (hrecord.symm.trans hrecord')
    exact .inl hcounted
  have htended := tended_applyJournals emptyRoot
    (window_applyJournals emptyRoot before window_empty (room_applyJournals emptyRoot after hroom))
    hroom (fun k => by rw [← happend]; exact hstays k) hstart
  exact hspared.elim id (fun hnot => (htended left hget).resolve_right hnot)

theorem counted_never_leaks_sample :
    (runGcTicks [1] (applyJournals 0 ([sampleJournal] ++ [laterJournal]) empty)).nodeDb.get 2 =
      some ⟨1, [8]⟩ ∧ 0 < (⟨1, [8]⟩ : NodeRecord).refcnt := by
  have hrecord : (applyJournals 0 [sampleJournal] empty).nodeDb.get 2 = some ⟨1, [8]⟩ := by decide
  have hstays (k : Nat) : (applyJournals 0 ([sampleJournal] ++ [laterJournal].take k)
      empty).bytesAt 2 = some [8] := by
    cases k with
    | zero => decide
    | succ k =>
        rw [List.take_of_length_le (Nat.succ_le_succ (Nat.zero_le k))]
        decide
  have hlong : (applyJournals 0 ([sampleJournal] ++ [laterJournal]) empty).gcState.len ≤
      [1].sum := by decide
  have hleft : (runGcTicks [1] (applyJournals 0 ([sampleJournal] ++ [laterJournal])
      empty)).nodeDb.get 2 = some ⟨1, [8]⟩ := by decide
  exact ⟨hleft, counted_never_leaks 0 (by decide) hrecord Nat.one_pos hstays hlong hleft⟩

end NodeStore

end Kasane.Trie
