import Kasane.Chain.Produce
import Kasane.Exec.TraceRun
import Kasane.Export.TraceCodec

namespace Kasane.Exec.Trace

open BigEndian Codec Word Blob Export
open Chain (Address StableState CallEnv storeBytes)
open Gateway (textBytes textOf_textBytes textBytes_eq_nil)

variable {W : Type}

def storedBytes (traces : InternalTraceSet) : Except InternalTraceEncodeError Bytes :=
  match traces.toBytesChecked with
  | .ok bytes => .ok bytes
  | .error _ => (InternalTraceSet.failed traces.totalCount).toBytesChecked

-- `none` is a trap
def storeInternalTraces (env : CallEnv) (s : StableState W) (traces : InternalTraceSet) :
    Option (Option BlobPtr × StableState W) :=
  if traces.totalCount = 0 then some (none, s)
  else
    match storedBytes traces with
    | .error _ => none
    | .ok bytes => (storeBytes env s bytes).map (fun r => (some r.1, r.2))

-- what is stored for a collected set
def stored (traces : InternalTraceSet) : InternalTraceSet :=
  if ∀ item ∈ traces.items, item.traceId.length ≤ maxTraceIdLen then traces
  else .failed traces.totalCount

def knownCode (code : Option Bytes) : Prop :=
  code = none ∨ ∃ text : String, code = some (textBytes text) ∧ text ≠ "" ∧
    (textBytes text).length ≤ maxErrorCodeLen

theorem knownCode_status (result : InstructionResult) :
    knownCode (traceOutcomeStatus result).2 := by
  cases result <;>
    first
    | exact .inl rfl
    | exact .inr ⟨_, rfl, by decide, by decide⟩

theorem isUtf8_textBytes (text : String) : isUtf8 (textBytes text) = true := by
  have htext := textOf_textBytes text
  rw [isUtf8]
  change (Gateway.textOf (textBytes text)).isSome = true
  rw [htext]
  rfl

structure Recordable (trace : InternalTrace) : Prop where
  traceId : ∃ text, trace.traceId = textBytes text
  errorCode : knownCode trace.errorCode

theorem Recordable.textual {trace : InternalTrace} (h : Recordable trace) : trace.Textual := by
  obtain ⟨text, htext⟩ := h.traceId
  rcases h.errorCode with hnone | ⟨code, hcode, hne, -⟩
  · refine ⟨?_, ?_, ?_⟩
    · rw [htext]
      exact isUtf8_textBytes text
    · simp [hnone]
    · simp [hnone]
  · refine ⟨?_, ?_, ?_⟩
    · rw [htext]
      exact isUtf8_textBytes text
    · intro bytes hbytes
      obtain rfl := Option.some.inj (hcode.symm.trans hbytes)
      exact isUtf8_textBytes code
    · rw [hcode]
      exact fun hnil => hne (textBytes_eq_nil.mp (Option.some.inj hnil))

theorem Recordable.within {trace : InternalTrace} (h : Recordable trace)
    (hid : trace.traceId.length ≤ maxTraceIdLen) : trace.WithinLimits := by
  refine ⟨hid, ?_⟩
  rcases h.errorCode with hnone | ⟨code, hcode, -, hlen⟩
  · rw [hnone]
    exact Nat.zero_le _
  · rw [hcode]
    exact hlen

theorem mem_updateLast {α : Type} {found : α → Bool} {update : α → α} {items : List α} {x : α}
    (h : x ∈ updateLast found update items) : x ∈ items ∨ ∃ y ∈ items, x = update y := by
  induction items with
  | nil => exact .inl h
  | cons item items ih =>
      rw [updateLast] at h
      split_ifs at h
      · rcases List.mem_cons.mp h with rfl | h
        · exact .inl List.mem_cons_self
        · rcases ih h with hx | ⟨y, hy, rfl⟩
          · exact .inl (List.mem_cons_of_mem _ hx)
          · exact .inr ⟨y, List.mem_cons_of_mem _ hy, rfl⟩
      · rcases List.mem_cons.mp h with rfl | h
        · exact .inr ⟨item, List.mem_cons_self, rfl⟩
        · exact .inl (List.mem_cons_of_mem _ h)
      · exact .inl h

theorem length_updateLast {α : Type} (found : α → Bool) (update : α → α) (items : List α) :
    (updateLast found update items).length = items.length := by
  induction items with
  | nil => rfl
  | cons item items ih =>
      rw [updateLast]
      split_ifs
      · rw [List.length_cons, ih, List.length_cons]
      · rfl
      · rfl

namespace InternalTraceInspector

structure Collected (i : InternalTraceInspector) : Prop where
  few : i.traces.length ≤ maxInternalTracesPerTx
  counted : i.traces.length ≤ i.totalCount
  total : i.totalCount ≤ u32Max
  recordable : ∀ item ∈ i.traces, Recordable item.trace

theorem collected_new (blockNumber : UInt64) (txIndex : UInt32) :
    Collected (new blockNumber txIndex) where
  few := Nat.zero_le _
  counted := Nat.le_refl _
  total := Nat.zero_le _
  recordable := fun _ h => absurd h List.not_mem_nil

theorem Collected.same {i j : InternalTraceInspector} (h : Collected i)
    (htraces : j.traces = i.traces) (htotal : j.totalCount = i.totalCount) : Collected j where
  few := htraces ▸ h.few
  counted := by
    rw [htraces, htotal]
    exact h.counted
  total := htotal ▸ h.total
  recordable := htraces ▸ h.recordable

theorem Collected.activate {i : InternalTraceInspector} (h : Collected i)
    (paths : List (Option (List Nat))) : Collected { i with activePaths := paths } :=
  h.same rfl rfl

theorem Collected.countTrace {i : InternalTraceInspector} (h : Collected i) (id : List Nat)
    {trace : UInt64 → UInt32 → List Nat → InternalTrace}
    (htrace : Recordable (trace i.blockNumber i.txIndex id)) : Collected (i.countTrace id trace) := by
  have hfew := h.few
  have hcounted := h.counted
  have hsmall : maxInternalTracesPerTx < u32Max := by decide
  have htotal : (i.countTrace id trace).totalCount = min (i.totalCount + 1) u32Max := rfl
  by_cases hroom : i.traces.length < maxInternalTracesPerTx
  · have htraces : (i.countTrace id trace).traces =
        i.traces ++ [⟨id, trace i.blockNumber i.txIndex id⟩] := if_pos hroom
    refine ⟨?_, ?_, ?_, ?_⟩
    · rw [htraces, List.length_append, List.length_singleton]
      omega
    · rw [htraces, htotal, List.length_append, List.length_singleton]
      omega
    · rw [htotal]
      exact Nat.min_le_right _ _
    · intro item hitem
      rw [htraces] at hitem
      rcases List.mem_append.mp hitem with hitem | hitem
      · exact h.recordable item hitem
      · obtain rfl := List.mem_singleton.mp hitem
        exact htrace
  · have htraces : (i.countTrace id trace).traces = i.traces := if_neg hroom
    refine ⟨htraces ▸ hfew, ?_, ?_, htraces ▸ h.recordable⟩
    · rw [htraces, htotal]
      omega
    · rw [htotal]
      exact Nat.min_le_right _ _

theorem allocateEventTraceId_same {i j : InternalTraceInspector} {id : List Nat}
    (h : i.allocateEventTraceId = some (id, j)) :
    j.traces = i.traces ∧ j.totalCount = i.totalCount := by
  rw [allocateEventTraceId] at h
  split at h
  · cases h
  · obtain ⟨-, rfl⟩ := Prod.mk.inj (Option.some.inj h)
    exact ⟨rfl, rfl⟩

theorem Collected.startAction {i j : InternalTraceInspector} (h : Collected i)
    {actionKind : InternalTraceActionKind} {fromAddress : Address}
    {toAddress createdContractAddress : Option Address} {value : ByteArr 32}
    (hrun : i.startAction actionKind fromAddress toAddress createdContractAddress value = some j) :
    Collected j := by
  obtain ⟨⟨id, k⟩, halloc, hrun⟩ := Option.bind_eq_some_iff.mp hrun
  obtain ⟨⟨id', k'⟩, hevent, hk⟩ := Option.bind_eq_some_iff.mp halloc
  obtain ⟨rfl, rfl⟩ := Prod.mk.inj (Option.some.inj hk)
  obtain ⟨htraces, htotal⟩ := allocateEventTraceId_same hevent
  have hallocated : Collected { k' with frameChildren := 0 :: k'.frameChildren } :=
    h.same htraces htotal
  dsimp only at hrun
  split_ifs at hrun
  · obtain rfl := Option.some.inj hrun
    refine Collected.activate ?_ _
    exact hallocated.countTrace id' ⟨⟨_, rfl⟩, .inr ⟨"pending", rfl, by decide, by decide⟩⟩
  · obtain rfl := Option.some.inj hrun
    exact hallocated.activate _

theorem Collected.finishAction {i : InternalTraceInspector} (h : Collected i) (success : Bool)
    {errorCode : Option Bytes} (hcode : knownCode errorCode)
    (createdContractAddress : Option Address) :
    Collected (i.finishAction success errorCode createdContractAddress) := by
  rw [InternalTraceInspector.finishAction]
  dsimp only
  split
  · exact h.same rfl rfl
  · refine ⟨?_, ?_, h.total, ?_⟩
    · rw [length_updateLast]
      exact h.few
    · rw [length_updateLast]
      exact h.counted
    · intro item hitem
      rcases mem_updateLast hitem with hitem | ⟨draft, hdraft, rfl⟩
      · exact h.recordable item hitem
      · exact ⟨(h.recordable draft hdraft).traceId, hcode⟩

theorem Collected.recordSelfdestruct {i : InternalTraceInspector} (h : Collected i)
    (contract target : Address) (value : Precompile.U256) :
    Collected (i.recordSelfdestruct contract target value) := by
  rw [InternalTraceInspector.recordSelfdestruct]
  split_ifs
  · exact h
  · split
    · exact h
    · rename_i id j halloc
      obtain ⟨htraces, htotal⟩ := allocateEventTraceId_same halloc
      exact (h.same htraces htotal).countTrace id ⟨⟨_, rfl⟩, .inl rfl⟩

theorem Collected.inspect {i j : InternalTraceInspector} (h : Collected i) {event : TraceEvent}
    (hrun : i.inspect event = some j) : Collected j := by
  cases event with
  | opens action =>
      rw [inspect_opens] at hrun
      exact h.startAction hrun
  | closes action =>
      rw [inspect_closes] at hrun
      obtain rfl := Option.some.inj hrun
      exact h.finishAction _ (knownCode_status _) _
  | meets destroyed =>
      obtain rfl := Option.some.inj hrun
      exact h.recordSelfdestruct ..

theorem Collected.inspectAll {events : List TraceEvent} {i j : InternalTraceInspector}
    (h : Collected i) (hrun : i.inspectAll events = some j) : Collected j := by
  induction events generalizing i with
  | nil =>
      obtain rfl := Option.some.inj hrun
      exact h
  | cons event events ih =>
      obtain ⟨k, hone, hrest⟩ := Option.bind_eq_some_iff.mp hrun
      exact ih (h.inspect hone) hrest

theorem Collected.recordable_items {i : InternalTraceInspector} (h : Collected i) :
    ∀ item ∈ i.finish.items, Recordable item := by
  intro item hitem
  obtain ⟨draft, hdraft, rfl⟩ := List.mem_map.mp hitem
  exact h.recordable draft hdraft

theorem Collected.counted_finish {i : InternalTraceInspector} (h : Collected i) :
    i.finish.Counted := by
  have hlen : (i.traces.map InternalTraceDraft.trace).length = i.traces.length := List.length_map _
  have hfew := h.few
  have hsmall : i.traces.length < 2 ^ 32 := Nat.lt_of_le_of_lt hfew (by decide)
  have hcaptured : i.finish.capturedCount.toNat = i.traces.length := by
    change ((u32TryFrom (i.traces.map InternalTraceDraft.trace).length).getD _).toNat = _
    rw [hlen, u32TryFrom_of_lt hsmall]
    exact UInt32.toNat_ofNat_of_lt' hsmall
  have htotal : i.finish.totalCount.toNat = i.totalCount :=
    UInt32.toNat_ofNat_of_lt' (Nat.lt_of_le_of_lt h.total (by decide))
  refine ⟨hlen ▸ hfew, hcaptured.trans hlen.symm, ?_, fun _ => rfl, fun hfailed => ?_⟩
  · rw [UInt32.le_iff_toNat_le, hcaptured, htotal]
    exact h.counted
  · cases hfailed

end InternalTraceInspector

theorem toBytesChecked_failed (totalCount : UInt32) :
    (InternalTraceSet.failed totalCount).toBytesChecked =
      .ok (InternalTraceSet.failed totalCount).encoded :=
  InternalTraceSet.toBytesChecked_of_within (InternalTraceSet.counted_failed totalCount)
    (fun _ h => absurd h List.not_mem_nil)

-- a set whose fallback is the failed marker, and only for an id over its limit
structure Encodes (traces : InternalTraceSet) : Prop where
  fallback : (∃ e, traces.toBytesChecked = .error e) ↔
    ∃ item ∈ traces.items, maxTraceIdLen < item.traceId.length
  bytes : storedBytes traces = .ok (stored traces).encoded
  decoded : InternalTraceSet.fromBytes (stored traces).encoded = stored traces

theorem encodes_finish {i : InternalTraceInspector} (h : i.Collected) : Encodes i.finish := by
  have hrecordable := h.recordable_items
  by_cases hids : ∀ item ∈ i.finish.items, item.traceId.length ≤ maxTraceIdLen
  · have hwithin : ∀ item ∈ i.finish.items, item.WithinLimits :=
      fun item hitem => (hrecordable item hitem).within (hids item hitem)
    have hbytes := InternalTraceSet.toBytesChecked_of_within h.counted_finish hwithin
    have hstored : stored i.finish = i.finish := if_pos hids
    refine ⟨⟨?_, ?_⟩, ?_, ?_⟩
    · rintro ⟨e, he⟩
      rw [hbytes] at he
      cases he
    · rintro ⟨item, hitem, hlong⟩
      exact absurd (hids item hitem) (Nat.not_le.mpr hlong)
    · rw [storedBytes, hbytes, hstored]
    · rw [hstored]
      exact InternalTraceSet.fromBytes_encoded h.counted_finish hwithin
        (fun item hitem => (hrecordable item hitem).textual)
  · have hstored : stored i.finish = .failed i.finish.totalCount := if_neg hids
    obtain ⟨item, hitem, hlong⟩ : ∃ item ∈ i.finish.items, maxTraceIdLen < item.traceId.length := by
      simpa using hids
    obtain ⟨e, he⟩ := InternalTraceSet.toBytesChecked_of_long h.counted_finish hitem hlong
    refine ⟨⟨fun _ => ⟨item, hitem, hlong⟩, fun _ => ⟨e, he⟩⟩, ?_, ?_⟩
    · rw [storedBytes, he, hstored]
      exact toBytesChecked_failed _
    · rw [hstored]
      exact InternalTraceSet.fromBytes_encoded (InternalTraceSet.counted_failed _)
        (fun _ hmem => absurd hmem List.not_mem_nil) (fun _ hmem => absurd hmem List.not_mem_nil)

end Kasane.Exec.Trace
