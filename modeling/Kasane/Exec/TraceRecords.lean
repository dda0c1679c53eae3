import Kasane.Exec.TraceRun

namespace Kasane.Exec.Trace

open BigEndian Codec Word Export
open Gateway (textBytes)

def TraceForest.internalEvents (body : TraceForest) : List (TraceAction ⊕ Selfdestruct) :=
  body.walk.filterMap Forest.Visit.entered

theorem TraceForest.size_eq (body : TraceForest) : body.size = body.internalEvents.length := by
  rw [internalEvents, ← Forest.listed_labels [] 0, List.length_map, Forest.length_listed]

-- the ids are the positions of the internal events below the transaction's own frame
structure Numbers (ids : List (List Nat × (TraceAction ⊕ Selfdestruct))) (body : TraceForest) :
    Prop where
  events : ids.map Prod.snd = body.internalEvents
  preorder : ids.Pairwise (fun x y => x.1 < y.1)
  positions : ∀ position deeper event,
    (position :: deeper, event) ∈ ids ↔ body.labelAt (position :: deeper) = some event
  nonempty : ∀ event, ([], event) ∉ ids
  parent : ∀ id position event, (id ++ [position], event) ∈ ids →
    id = [] ∨ ∃ frame, (id, .inl frame) ∈ ids

theorem mem_listed_labelAt {body : TraceForest} {id : List Nat} {event : TraceAction ⊕ Selfdestruct}
    (hid : id ≠ []) : (id, event) ∈ body.listed [] 0 ↔ body.labelAt id = some event := by
  obtain ⟨position, deeper, rfl⟩ := List.exists_cons_of_ne_nil hid
  have hiff := Forest.mem_listed_iff [] 0 position deeper event body
  rwa [List.nil_append, Nat.zero_add] at hiff

theorem numbers_listed (body : TraceForest) : Numbers (body.listed [] 0) body where
  events := Forest.listed_labels [] 0 body
  preorder := Forest.listed_sorted [] 0 body
  positions position deeper event := mem_listed_labelAt (List.cons_ne_nil position deeper)
  nonempty event := Forest.notMem_listed_self [] 0 event body
  parent id position event hmem := by
    have hlabel := (mem_listed_labelAt (by simp)).mp hmem
    rcases Forest.labelAt_parent hlabel with rfl | ⟨frame, hframe⟩
    · exact .inl rfl
    · refine .inr ⟨frame, (mem_listed_labelAt fun hnil => ?_).mpr hframe⟩
      rw [hnil, Forest.labelAt_nil] at hframe
      cases hframe

structure Records (blockNumber : UInt64) (txIndex : UInt32)
    (ids : List (List Nat × (TraceAction ⊕ Selfdestruct))) (set : InternalTraceSet) : Prop where
  items : set.items = (ids.take maxInternalTracesPerTx).map
    (fun entry => recorded blockNumber txIndex entry.1 entry.2)
  depth : ∀ entry ∈ ids.take maxInternalTracesPerTx,
    (recorded blockNumber txIndex entry.1 entry.2).depth.toNat = entry.1.length
  distinct : (set.items.map InternalTrace.traceId).Nodup
  capturedCount : set.capturedCount.toNat = min ids.length maxInternalTracesPerTx
  totalCount : set.totalCount.toNat = min ids.length u32Max
  truncated : set.truncated = decide (maxInternalTracesPerTx < ids.length)
  encodeFailed : set.encodeFailed = false

theorem depth_recorded (blockNumber : UInt64) (txIndex : UInt32) (id : List Nat)
    (event : TraceAction ⊕ Selfdestruct) :
    (recorded blockNumber txIndex id event).depth = UInt16.ofNat id.length := by
  cases event with
  | inl action => rfl
  | inr destroyed => rfl

theorem traceId_recorded (blockNumber : UInt64) (txIndex : UInt32) (id : List Nat)
    (event : TraceAction ⊕ Selfdestruct) :
    (recorded blockNumber txIndex id event).traceId = textBytes (renderTraceId id) := by
  cases event with
  | inl action => rfl
  | inr destroyed => rfl

theorem length_id_captured {body : TraceForest} {entry : List Nat × (TraceAction ⊕ Selfdestruct)}
    (h : entry ∈ (body.listed [] 0).take maxInternalTracesPerTx) :
    entry.1.length ≤ maxInternalTracesPerTx := by
  obtain ⟨k, hk, hentry⟩ := List.getElem_of_mem h
  rw [List.length_take] at hk
  rw [List.getElem_take] at hentry
  have hget : (body.listed [] 0)[k]? = some entry := by
    rw [List.getElem?_eq_getElem (by omega), hentry]
  have hbound := Forest.length_id_le hget
  rw [List.length_nil] at hbound
  omega

theorem records_finish (blockNumber : UInt64) (txIndex : UInt32) (body : TraceForest) :
    Records blockNumber txIndex (body.listed [] 0) (InternalTraceSet.newWithCounts
      (((drafts blockNumber txIndex (body.listed [] 0)).take maxInternalTracesPerTx).map
        InternalTraceDraft.trace) (UInt32.ofNat (min body.size u32Max))) := by
  have hitems : ((drafts blockNumber txIndex (body.listed [] 0)).take maxInternalTracesPerTx).map
      InternalTraceDraft.trace = ((body.listed [] 0).take maxInternalTracesPerTx).map
        (fun entry => recorded blockNumber txIndex entry.1 entry.2) := by
    rw [drafts, ← List.map_take, List.map_map]
    rfl
  have hlength : (((body.listed [] 0).take maxInternalTracesPerTx).map
      (fun entry => recorded blockNumber txIndex entry.1 entry.2)).length =
        min maxInternalTracesPerTx body.size := by
    rw [List.length_map, List.length_take, Forest.length_listed]
  have hsmall : min maxInternalTracesPerTx body.size < 2 ^ 32 :=
    Nat.lt_of_le_of_lt (Nat.min_le_left _ _) (by decide)
  have htotal : (UInt32.ofNat (min body.size u32Max)).toNat = min body.size u32Max :=
    UInt32.toNat_ofNat_of_lt' (Nat.lt_of_le_of_lt (Nat.min_le_right _ _) (by decide))
  have hcaptured : (UInt32.ofNat (min maxInternalTracesPerTx body.size)).toNat =
      min maxInternalTracesPerTx body.size := UInt32.toNat_ofNat_of_lt' hsmall
  rw [hitems, InternalTraceSet.newWithCounts, hlength, u32TryFrom_of_lt hsmall]
  refine ⟨rfl, ?_, ?_, ?_, ?_, ?_, rfl⟩
  · intro entry hentry
    have hle := length_id_captured hentry
    rw [depth_recorded, UInt16.toNat_ofNat_of_lt']
    exact Nat.lt_of_le_of_lt hle (by decide)
  · have hids : (((body.listed [] 0).take maxInternalTracesPerTx).map Prod.fst).Nodup := by
      rw [List.map_take]
      exact (Forest.listed_nodup [] 0 body).sublist (List.take_sublist _ _)
    have hrendered : ((body.listed [] 0).take maxInternalTracesPerTx).map (InternalTrace.traceId ∘
        (fun entry => recorded blockNumber txIndex entry.1 entry.2)) =
          (((body.listed [] 0).take maxInternalTracesPerTx).map Prod.fst).map
            (textBytes ∘ renderTraceId) := by
      rw [List.map_map]
      exact List.map_congr_left fun entry _ => traceId_recorded _ _ _ _
    rw [List.map_map, hrendered]
    exact hids.map (textBytes_injective.comp renderTraceId_injective)
  · rw [Option.getD_some, hcaptured, Forest.length_listed, Nat.min_comm]
  · rw [htotal, Forest.length_listed]
  · rw [Forest.length_listed]
    refine decide_eq_decide.mpr ?_
    rw [Option.getD_some, gt_iff_lt, UInt32.lt_iff_toNat_lt, htotal, hcaptured,
      maxInternalTracesPerTx, u32Max]
    omega

namespace InternalTraceInspector

-- every end event, with the start event it belongs to; the transaction's own frame has no record
structure EachEndOwn (fresh : InternalTraceInspector) (root : TraceAction) (body : TraceForest) :
    Prop where
  internal : ∀ before action after, body.walk = before ++ .closes action :: after →
    ∃ outside inside started ended done,
      before = outside ++ .opens action :: Forest.walk inside ∧
      fresh.inspectAll (.opens root :: outside) = some started ∧
      fresh.inspectAll (.opens root :: before) = some ended ∧
      ended.inspect (.closes action) = some done ∧
      EndsOwn action started ended done
  outermost : ∃ ended done, fresh.inspectAll (.opens root :: body.walk) = some ended ∧
    ended.inspect (.closes root) = some done ∧ done.traces = ended.traces

theorem eachEndOwn (blockNumber : UInt64) (txIndex : UInt32) (root : TraceAction)
    (body : TraceForest) : EachEndOwn (new blockNumber txIndex) root body where
  internal before action after hwalk := by
    obtain ⟨outside, inside, henclosed, rfl⟩ := Forest.closes_enclosed hwalk
    obtain ⟨started, top, stack, next, outer, hstarted, hstands⟩ :=
      (stands_entered blockNumber txIndex).inspectAll_outside henclosed
    obtain ⟨ended, done, hended, hdone, hown⟩ := hstands.endsOwn action inside
    have hroot := inspect_root blockNumber txIndex root
    refine ⟨outside, inside, started, ended, done, rfl, ?_, ?_, hdone, hown⟩
    · rw [inspectAll_cons hroot, hstarted]
    · rw [inspectAll_cons hroot, inspectAll_of_append hstarted, hended]
  outermost := by
    obtain ⟨last, hbody⟩ := (stands_entered blockNumber txIndex).inspectAll_walk body
    have hroot := inspect_root blockNumber txIndex root
    exact ⟨_, _, (inspectAll_cons hroot _).trans hbody, inspect_closes _ root, rfl⟩

theorem transaction_traced (blockNumber : UInt64) (txIndex : UInt32) (root : TraceAction)
    (body : TraceForest) :
    ∃ ids i, (new blockNumber txIndex).inspectAll (Forest.node root body .nil).walk = some i ∧
      Numbers ids body ∧ Records blockNumber txIndex ids i.finish ∧
      EachEndOwn (new blockNumber txIndex) root body :=
  ⟨body.listed [] 0, _, inspectAll_transaction blockNumber txIndex root body,
    numbers_listed body, records_finish blockNumber txIndex body,
    eachEndOwn blockNumber txIndex root body⟩

def selfdestructs (selfdestruct : Selfdestruct) : Nat → TraceForest
  | 0 => .nil
  | n + 1 => .leaf selfdestruct (selfdestructs selfdestruct n)

theorem size_selfdestructs (selfdestruct : Selfdestruct) (n : Nat) :
    (selfdestructs selfdestruct n).size = n := by
  induction n with
  | zero => rfl
  | succ n ih => rw [selfdestructs, Forest.size, ih]

theorem total_selfdestructs (blockNumber : UInt64) (txIndex : UInt32) (root : TraceAction)
    (selfdestruct : Selfdestruct) {n : Nat} (hn : u32Max < n) :
    ∃ i, (new blockNumber txIndex).inspectAll
        (Forest.node root (selfdestructs selfdestruct n) .nil).walk = some i ∧
      i.finish.totalCount.toNat ≠ (selfdestructs selfdestruct n).internalEvents.length := by
  refine ⟨_, inspectAll_transaction blockNumber txIndex root _, ?_⟩
  have hrecords := records_finish blockNumber txIndex (selfdestructs selfdestruct n)
  have hmin : min ((selfdestructs selfdestruct n).listed [] 0).length u32Max = u32Max := by
    rw [Forest.length_listed, size_selfdestructs, Nat.min_eq_right (Nat.le_of_lt hn)]
  have htotal := hrecords.totalCount.trans hmin
  have hevents : (selfdestructs selfdestruct n).internalEvents.length = n := by
    rw [← TraceForest.size_eq, size_selfdestructs]
  rw [hevents]
  exact fun heq => Nat.ne_of_lt hn (htotal.symm.trans heq)

def sampleRoot : TraceAction :=
  .call ⟨.call, zeroArr 20, zeroArr 20, .transfer 0⟩ .stop

def sampleSelfdestruct : Selfdestruct := ⟨zeroArr 20, zeroArr 20, 0⟩

theorem total_count_saturates :
    ∃ i, (new 0 0).inspectAll
        (Forest.node sampleRoot (selfdestructs sampleSelfdestruct (2 ^ 32)) .nil).walk = some i ∧
      i.finish.totalCount.toNat ≠
        (selfdestructs sampleSelfdestruct (2 ^ 32)).internalEvents.length :=
  total_selfdestructs 0 0 sampleRoot sampleSelfdestruct (by decide)

end InternalTraceInspector

end Kasane.Exec.Trace
