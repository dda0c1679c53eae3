import Kasane.Gateway.UnwrapQueue

namespace Kasane.Gateway

open BigEndian Codec Word Chain Exec
open UnwrapDispatchRequest UnwrapLane GatewayState

variable {T : Type}

def unwrapStatusQueued : UInt64 := 0

def unwrapStatusDispatching : UInt64 := 1

def unwrapStatusDispatched : UInt64 := 2

def unwrapStatusDispatchFailed : UInt64 := 3

def unwrapDispatchTransitionSafeRaw (previousStatus nextStatus ledgerTxIdPresent errorPresent
    queueInserted : UInt64) : Bool :=
  (previousStatus == unwrapStatusQueued && nextStatus == unwrapStatusDispatching &&
    ledgerTxIdPresent == 0 && errorPresent == 0 && queueInserted == 0) ||
  (previousStatus == unwrapStatusDispatching && nextStatus == unwrapStatusDispatched &&
    ledgerTxIdPresent == 1 && errorPresent == 0 && queueInserted == 0) ||
  (previousStatus == unwrapStatusDispatching && nextStatus == unwrapStatusDispatchFailed &&
    ledgerTxIdPresent == 0 && errorPresent == 1 && queueInserted == 0) ||
  (previousStatus == unwrapStatusDispatchFailed && nextStatus == unwrapStatusQueued &&
    ledgerTxIdPresent == 0 && errorPresent == 0 && queueInserted == 1)

def unwrapUpgradeRecoverySafeRaw (previousStatus nextStatus queueAlreadyHadId queueInserted
    timestampUpdated : UInt64) : Bool :=
  (previousStatus == unwrapStatusQueued && nextStatus == unwrapStatusQueued &&
    timestampUpdated == 0 && ((queueAlreadyHadId == 1 && queueInserted == 0) ||
      (queueAlreadyHadId == 0 && queueInserted == 1))) ||
  (previousStatus == unwrapStatusDispatching && nextStatus == unwrapStatusQueued &&
    queueAlreadyHadId == 0 && queueInserted == 1 && timestampUpdated == 1) ||
  ((previousStatus == unwrapStatusDispatched || previousStatus == unwrapStatusDispatchFailed) &&
    nextStatus == previousStatus && queueInserted == 0 && timestampUpdated == 0)

def UnwrapRequestStatus.raw : UnwrapRequestStatus → UInt64
  | .queued => unwrapStatusQueued
  | .dispatching => unwrapStatusDispatching
  | .dispatched => unwrapStatusDispatched
  | .dispatchFailed => unwrapStatusDispatchFailed

def rawFlag (b : Bool) : UInt64 := if b then 1 else 0

namespace UnwrapDispatchRequest

def Coherent (req : UnwrapDispatchRequest) : Prop :=
  match req.status with
  | .queued | .dispatching => req.ledgerTxId.isSome = false ∧ req.errorCode.isSome = false
  | .dispatched => req.ledgerTxId.isSome = true ∧ req.errorCode.isSome = false
  | .dispatchFailed => req.ledgerTxId.isSome = false ∧ req.errorCode.isSome = true

variable {now : Nat} {req : UnwrapDispatchRequest}

theorem Coherent.queued (h : req.Coherent) (hstatus : req.status = .queued) :
    req.ledgerTxId.isSome = false ∧ req.errorCode.isSome = false := by
  rw [Coherent, hstatus] at h
  exact h

theorem Coherent.dispatching (h : req.Coherent) (hstatus : req.status = .dispatching) :
    req.ledgerTxId.isSome = false ∧ req.errorCode.isSome = false := by
  rw [Coherent, hstatus] at h
  exact h

theorem Coherent.failed (h : req.Coherent) (hstatus : req.status = .dispatchFailed) :
    req.ledgerTxId.isSome = false ∧ req.errorCode.isSome = true := by
  rw [Coherent, hstatus] at h
  exact h

theorem Coherent.status_of_corrupt (h : req.Coherent)
    (hcorrupt : req.isDecodeFailedUnwrapRequest = true) : req.status = .dispatchFailed := by
  have hcode : req.errorCode.isSome = true := by
    rw [of_decide_eq_true hcorrupt]
    rfl
  rw [Coherent] at h
  cases hstatus : req.status with
  | queued =>
      rw [hstatus] at h
      exact absurd (h.2.symm.trans hcode) (by simp)
  | dispatching =>
      rw [hstatus] at h
      exact absurd (h.2.symm.trans hcode) (by simp)
  | dispatched =>
      rw [hstatus] at h
      exact absurd (h.2.symm.trans hcode) (by simp)
  | dispatchFailed => rfl

theorem coherent_new (assetId : Bytes) (amount : Nat) (recipient : Bytes) :
    (UnwrapDispatchRequest.new assetId amount recipient now).Coherent := ⟨rfl, rfl⟩

theorem coherent_placeholder : decodeFailurePlaceholder.Coherent := ⟨rfl, rfl⟩

theorem coherent_quarantine : (req.quarantine now).Coherent := ⟨rfl, rfl⟩

theorem coherent_finalize (applied : Except String LedgerTxId) :
    (req.finalizeUnwrapDispatchAttempt now applied).Coherent := by
  cases applied with
  | error code => exact ⟨rfl, rfl⟩
  | ok ledgerTxId => exact ⟨rfl, rfl⟩

theorem Coherent.markDispatching (h : req.Coherent) (hstatus : req.status = .queued) :
    (req.markDispatching now).Coherent := h.queued hstatus

theorem Coherent.retry (h : req.Coherent) (hstatus : req.status = .dispatchFailed) :
    (req.retry now).Coherent := ⟨(h.failed hstatus).1, rfl⟩

theorem Coherent.quarantineDecodeFailed (h : req.Coherent) :
    (req.quarantineDecodeFailed now).Coherent := by
  rw [UnwrapDispatchRequest.quarantineDecodeFailed]
  split_ifs
  · exact coherent_quarantine
  · exact h

theorem Coherent.recoverAfterUpgrade (h : req.Coherent) : (req.recoverAfterUpgrade now).Coherent := by
  rw [UnwrapDispatchRequest.recoverAfterUpgrade]
  split_ifs with hstatus
  · exact h.dispatching hstatus
  · exact h

end UnwrapDispatchRequest

namespace UnwrapLane

def TransitionSafe (l l' : UnwrapLane) : Prop :=
  ∀ old new, l.record = some old → l'.record = some new → new.status ≠ old.status →
    unwrapDispatchTransitionSafeRaw old.status.raw new.status.raw (rawFlag new.ledgerTxId.isSome)
      (rawFlag new.errorCode.isSome) (rawFlag (decide (l.queued < l'.queued))) = true

def RecoverySafe (now : Nat) (l l' : UnwrapLane) : Prop :=
  ∀ old, l.record = some old → ∃ new touched, l'.record = some new ∧
    new.updatedAt = (if touched = true then now else old.updatedAt) ∧
      unwrapUpgradeRecoverySafeRaw old.status.raw new.status.raw (rawFlag (decide (0 < l.queued)))
        (rawFlag (decide (l.queued < l'.queued))) (rawFlag touched) = true

variable {l m l' : UnwrapLane} {now : Nat}

theorem TransitionSafe.refl (l : UnwrapLane) : TransitionSafe l l := by
  intro old new hold hnew hchanged
  obtain rfl := Option.some.inj (hold.symm.trans hnew)
  exact absurd rfl hchanged

theorem TransitionSafe.of_fresh (h : l.record = none) : TransitionSafe l l' := by
  intro old new hold
  exact absurd (h.symm.trans hold) (by simp)

theorem transitionSafe_of_records {old new : UnwrapDispatchRequest} (hold : l.record = some old)
    (hnew : l'.record = some new)
    (h : new.status ≠ old.status → unwrapDispatchTransitionSafeRaw old.status.raw new.status.raw
      (rawFlag new.ledgerTxId.isSome) (rawFlag new.errorCode.isSome)
        (rawFlag (decide (l.queued < l'.queued))) = true) : TransitionSafe l l' := by
  intro old' new' hold' hnew' hchanged
  obtain rfl := Option.some.inj (hold.symm.trans hold')
  obtain rfl := Option.some.inj (hnew.symm.trans hnew')
  exact h hchanged

theorem transitionSafe_finalize {req : UnwrapDispatchRequest} {n : Nat}
    {tasks tasks' : List DispatchTask} (hstatus : req.status = .dispatching)
    (applied : Except String LedgerTxId) :
    TransitionSafe ⟨some req, n, tasks⟩
      ⟨some (req.finalizeUnwrapDispatchAttempt now applied), n, tasks'⟩ := by
  apply transitionSafe_of_records rfl rfl
  intro _
  have hkept : decide (n < n) = false := decide_eq_false (lt_irrefl n)
  dsimp only
  rw [hstatus, hkept]
  cases applied with
  | error code => rfl
  | ok ledgerTxId => rfl

theorem transitionSafe_popped {req : UnwrapDispatchRequest} {tasks : List DispatchTask}
    (hreq : req.Coherent) (hstatus : req.status = .queued) :
    TransitionSafe ⟨some req, 1, tasks⟩ ⟨some (req.markDispatching now), 0, tasks⟩ := by
  apply transitionSafe_of_records rfl rfl
  intro _
  obtain ⟨hledger, herror⟩ := hreq.queued hstatus
  change unwrapDispatchTransitionSafeRaw req.status.raw _ (rawFlag req.ledgerTxId.isSome)
    (rawFlag req.errorCode.isSome) _ = true
  rw [hstatus, hledger, herror]
  rfl

theorem transitionSafe_retried {req : UnwrapDispatchRequest} {n : Nat} {tasks : List DispatchTask}
    (hreq : req.Coherent) (hstatus : req.status = .dispatchFailed) :
    TransitionSafe ⟨some req, n, tasks⟩ ⟨some (req.retry now), n + 1, tasks⟩ := by
  apply transitionSafe_of_records rfl rfl
  intro _
  have hpushed : decide (n < n + 1) = true := decide_eq_true (Nat.lt_succ_self n)
  change unwrapDispatchTransitionSafeRaw req.status.raw _ (rawFlag req.ledgerTxId.isSome) _
    (rawFlag (decide (n < n + 1))) = true
  rw [hstatus, (hreq.failed hstatus).1, hpushed]
  rfl

theorem transitionSafe_quarantined {req : UnwrapDispatchRequest} {n n' : Nat}
    {tasks : List DispatchTask} (hstatus : req.status = .dispatchFailed) :
    TransitionSafe ⟨some req, n, tasks⟩ ⟨some (req.quarantine now), n', tasks⟩ := by
  apply transitionSafe_of_records rfl rfl
  intro hchanged
  exact absurd hstatus.symm hchanged

theorem transitionSafe_quarantine (hreq : ∀ req, l.record = some req → req.Coherent) :
    TransitionSafe l (l.quarantine now) := by
  intro old new hold hnew hchanged
  have hcoherent := hreq old hold
  rw [record_quarantine, hold, Option.map_some] at hnew
  obtain rfl := Option.some.inj hnew
  rw [UnwrapDispatchRequest.quarantineDecodeFailed] at hchanged
  split_ifs at hchanged with hcorrupt
  · exact absurd (hcoherent.status_of_corrupt hcorrupt).symm hchanged
  · exact absurd rfl hchanged

end UnwrapLane

def CoherentLane (l : UnwrapLane) : Prop := ∀ req, l.record = some req → req.Coherent

theorem coherentLane_some {req : UnwrapDispatchRequest} {n : Nat} {tasks : List DispatchTask}
    (h : req.Coherent) : CoherentLane ⟨some req, n, tasks⟩ := by
  intro found hfound
  obtain rfl := Option.some.inj hfound
  exact h

theorem coherentLane_map {l l' : UnwrapLane} {f : UnwrapDispatchRequest → UnwrapDispatchRequest}
    (h : CoherentLane l) (hrecord : l'.record = l.record.map f)
    (hf : ∀ req, req.Coherent → (f req).Coherent) : CoherentLane l' := by
  intro req hreq
  obtain ⟨old, hold, rfl⟩ := Option.map_eq_some_iff.mp (hrecord.symm.trans hreq)
  exact hf old (h old hold)

section

variable {l m l' : UnwrapLane} {now : Nat} {R : TxId} {suspended : List (TxId × DispatchTask)}
  {a : Action}

theorem Orderly.popped_queued {req : UnwrapDispatchRequest} {n : Nat} (h : Orderly l)
    (hfound : l.record = some req) (hsound : req.shouldSkipDispatchUnwrapRequest = false)
    (hqueued : l.queued = n + 1) : req.status = .queued := by
  cases h with
  | unknown => exact absurd hfound (by simp)
  | waiting queued =>
      obtain rfl := Option.some.inj hfound
      exact queued
  | awaiting => exact absurd hqueued (by simp)
  | settled => exact absurd hqueued (by simp)
  | unreadable _ corrupt =>
      obtain rfl := Option.some.inj hfound
      have hskip := (decide_eq_false_iff_not.mp hsound)
      exact absurd (Or.inl (of_decide_eq_true corrupt)) hskip

theorem Orderly.transitionSafe_popped {req : UnwrapDispatchRequest} {n : Nat} (h : Orderly l)
    (hcoherent : CoherentLane l) (hfound : l.record = some req)
    (hsound : req.shouldSkipDispatchUnwrapRequest = false) (hqueued : l.queued = n + 1) :
    TransitionSafe l { l with queued := n, record := some (req.markDispatching now) } := by
  have hstatus := h.popped_queued hfound hsound hqueued
  obtain ⟨rfl, -⟩ := h.popped hfound hqueued
  obtain ⟨record, queued, tasks⟩ := l
  obtain rfl : record = some req := hfound
  obtain rfl : queued = 1 := hqueued
  exact UnwrapLane.transitionSafe_popped (hcoherent req rfl) hstatus

theorem CoherentLane.step (h : CoherentLane l) (horder : Orderly l)
    (step : UnwrapStep R suspended a l l')
    (fresh : ∀ now, a = .repairStaleOperations now → ∀ req, l.record = some req →
      req.dispatchStale now = false) : CoherentLane l' := by
  cases step with
  | other => exact h
  | opened _ _ assetId amount recipient => exact coherentLane_some (coherent_new ..)
  | forgotten unknown => exact fun req hreq => absurd (unknown.symm.trans hreq) (by simp)
  | quarantined => exact coherentLane_some coherent_quarantine
  | @popped now n _ _ req found sound queued dispatches =>
      have hmarked : (req.markDispatching now).Coherent :=
        (h req found).markDispatching (horder.popped_queued found sound queued)
      cases dispatches with
      | refused code => exact coherentLane_some (coherent_finalize _)
      | suspended task => exact coherentLane_some hmarked
  | resumed _ resumes continues =>
      obtain ⟨before, after, -, rfl⟩ := resumes
      cases continues with
      | finished applied => exact coherentLane_map h rfl (fun _ _ => coherent_finalize applied)
      | sent call => exact h
  | retried found failed => exact coherentLane_some ((h _ found).retry failed)
  | @repaired now =>
      refine coherentLane_map (f := id) h ?_ (fun _ hreq => hreq)
      rw [record_update, record_requeue, Option.map_id]
      cases hrecord : l.record with
      | none => rfl
      | some req => exact congrArg some (repairStale_of_fresh (fresh now rfl req hrecord))
  | @upgraded now config =>
      refine coherentLane_map (f := fun req => (req.quarantineDecodeFailed now).recoverAfterUpgrade now)
        h ?_ (fun _ hreq => hreq.quarantineDecodeFailed.recoverAfterUpgrade)
      rw [record_update, record_requeue, record_quarantine, Option.map_map]
      rfl

theorem transitionSafe_dispatches {req : UnwrapDispatchRequest} {n : Nat} {tasks : List DispatchTask}
    (hstatus : req.status = .dispatching) (h : Dispatches now ⟨some req, n, tasks⟩ l') :
    TransitionSafe ⟨some req, n, tasks⟩ l' := by
  cases h with
  | refused code => exact transitionSafe_finalize hstatus _
  | suspended task =>
      apply transitionSafe_of_records rfl rfl
      intro hchanged
      exact absurd rfl hchanged

theorem Orderly.transitionSafe_resumed {task : DispatchTask} (h : Orderly l)
    (readable : ∀ req, l.record = some req → req.isDecodeFailedUnwrapRequest = false)
    (resumes : Resumes task l m) (continues : Continues now m l') : TransitionSafe l l' := by
  obtain ⟨before, after, htasks, rfl⟩ := resumes
  cases h with
  | unknown => exact absurd htasks (by simp)
  | waiting => exact absurd htasks (by simp)
  | settled => exact absurd htasks (by simp)
  | unreadable => exact absurd htasks (by simp)
  | awaiting held popped unqueued =>
      cases continues with
      | finished applied =>
          rcases popped with hdispatching | hcorrupt
          · exact transitionSafe_finalize hdispatching applied
          · exact absurd (hcorrupt.symm.trans (readable _ rfl)) (by simp)
      | sent call =>
          apply transitionSafe_of_records rfl rfl
          intro hchanged
          exact absurd rfl hchanged

theorem recoverySafe_of_pending {req : UnwrapDispatchRequest} {tasks tasks' : List DispatchTask}
    (hstatus : req.status = .dispatching) :
    RecoverySafe now ⟨some req, 0, tasks⟩
      { ((⟨some req, 0, tasks⟩ : UnwrapLane).requeue upgradeRequeues).update
        (recoverAfterUpgrade now) with tasks := tasks' } := by
  intro old hold
  obtain rfl := Option.some.inj hold
  have hrequeues : req.upgradeRequeues = true := decide_eq_true (Or.inr hstatus)
  refine ⟨req.recoverAfterUpgrade now, true, rfl, ?_, ?_⟩
  · rw [recoverAfterUpgrade, if_pos hstatus]
    rfl
  · rw [hstatus, recoverAfterUpgrade_waiting hrequeues]
    simp [UnwrapLane.requeue, hrequeues]
    decide

theorem recoverySafe_of_queued {req : UnwrapDispatchRequest} {tasks tasks' : List DispatchTask}
    (hstatus : req.status = .queued) :
    RecoverySafe now ⟨some req, 1, tasks⟩
      { ((⟨some req, 1, tasks⟩ : UnwrapLane).requeue upgradeRequeues).update
        (recoverAfterUpgrade now) with tasks := tasks' } := by
  intro old hold
  obtain rfl := Option.some.inj hold
  have hsame : req.recoverAfterUpgrade now = req := if_neg (by simp [hstatus])
  have hrequeues : req.upgradeRequeues = true := decide_eq_true (Or.inl hstatus)
  refine ⟨req.recoverAfterUpgrade now, false, rfl, ?_, ?_⟩
  · rw [hsame]
    rfl
  · rw [hsame, hstatus]
    simp [UnwrapLane.requeue, hrequeues]
    decide

theorem recoverySafe_of_terminal {req : UnwrapDispatchRequest} {tasks tasks' : List DispatchTask}
    (hstatus : req.status = .dispatched ∨ req.status = .dispatchFailed) :
    RecoverySafe now ⟨some req, 0, tasks⟩
      { ((⟨some req, 0, tasks⟩ : UnwrapLane).requeue upgradeRequeues).update
        (recoverAfterUpgrade now) with tasks := tasks' } := by
  intro old hold
  obtain rfl := Option.some.inj hold
  have hsame : req.recoverAfterUpgrade now = req := by
    apply if_neg
    rcases hstatus with hstatus | hstatus
    · simp [hstatus]
    · simp [hstatus]
  have hrequeues : req.upgradeRequeues = false := by
    apply decide_eq_false
    rcases hstatus with hstatus | hstatus
    · simp [hstatus]
    · simp [hstatus]
  refine ⟨req.recoverAfterUpgrade now, false, rfl, ?_, ?_⟩
  · rw [hsame]
    rfl
  · rw [hsame]
    rcases hstatus with hstatus | hstatus
    · rw [hstatus]
      simp [UnwrapLane.requeue, hrequeues]
      decide
    · rw [hstatus]
      simp [UnwrapLane.requeue, hrequeues]
      decide

theorem recoverySafe_of_orderly {tasks : List DispatchTask} (h : Orderly l)
    (readable : ∀ req, l.record = some req → req.isDecodeFailedUnwrapRequest = false) :
    RecoverySafe now l
      { (l.requeue upgradeRequeues).update (recoverAfterUpgrade now) with tasks := tasks } := by
  cases h with
  | unknown => exact fun old hold => absurd hold (by simp)
  | waiting queued => exact recoverySafe_of_queued queued
  | awaiting _ popped =>
      rcases popped with hdispatching | hcorrupt
      · exact recoverySafe_of_pending hdispatching
      · exact absurd (hcorrupt.symm.trans (readable _ rfl)) (by simp)
  | @settled req unqueued =>
      cases hstatus : req.status with
      | queued => exact absurd hstatus unqueued
      | dispatching => exact recoverySafe_of_pending hstatus
      | dispatched => exact recoverySafe_of_terminal (Or.inl hstatus)
      | dispatchFailed => exact recoverySafe_of_terminal (Or.inr hstatus)
  | unreadable _ corrupt => exact absurd (corrupt.symm.trans (readable _ rfl)) (by simp)

theorem Orderly.transitionSafe (h : Orderly l) (hcoherent : CoherentLane l)
    (step : UnwrapStep R suspended a l l') (tick : ∀ now, a ≠ .unwrapDispatchTick now)
    (upgrade : ∀ now config, a ≠ .postUpgrade now config)
    (fresh : ∀ now, a = .repairStaleOperations now → ∀ req, l.record = some req →
      req.dispatchStale now = false)
    (readable : ∀ now i reply task, a = .resumeDispatch now i reply →
      suspended[i]? = some (R, task) → ∀ req, l.record = some req →
        req.isDecodeFailedUnwrapRequest = false) : TransitionSafe l l' := by
  cases step with
  | other => exact .refl l
  | opened _ unknown => exact .of_fresh unknown
  | forgotten unknown => exact .of_fresh unknown
  | quarantined => exact absurd rfl (tick _)
  | popped => exact absurd rfl (tick _)
  | resumed owned resumes continues =>
      exact h.transitionSafe_resumed (readable _ _ _ _ rfl owned) resumes continues
  | @retried now _ req found failed =>
      obtain ⟨record, queued, tasks⟩ := l
      obtain rfl : record = some req := found
      exact transitionSafe_retried (hcoherent req rfl) failed
  | @repaired now =>
      intro old new hold hnew hchanged
      rw [record_update, record_requeue, hold, Option.map_some] at hnew
      obtain rfl := Option.some.inj hnew
      rw [repairStale_of_fresh (fresh now rfl old hold)] at hchanged
      exact absurd rfl hchanged
  | upgraded => exact absurd rfl (upgrade _ _)

theorem transitionSafe_popFails (hcoherent : CoherentLane l) (h : Orderly l)
    (fails : PopFails now l l') : TransitionSafe l l' := by
  cases fails with
  | other => exact .refl l
  | forgotten unknown => exact .of_fresh unknown
  | @quarantined n req found skipped queued =>
      obtain ⟨record, waiting, tasks⟩ := l
      obtain rfl : record = some req := found
      apply transitionSafe_quarantined
      cases h with
      | waiting status =>
          have hnone := ((hcoherent req rfl).queued status).2
          rcases of_decide_eq_true skipped with hcode | hcode
          · exact absurd (hnone.symm.trans (congrArg Option.isSome hcode)) (by simp)
          · exact absurd (hnone.symm.trans (congrArg Option.isSome hcode)) (by simp)
      | awaiting => exact absurd queued (by simp)
      | settled => exact absurd queued (by simp)
      | unreadable _ corrupt => exact (hcoherent req rfl).status_of_corrupt corrupt

theorem recoverySafe_quarantine {tasks : List DispatchTask} (h : Orderly l) :
    RecoverySafe now (l.quarantine now)
      { ((l.quarantine now).requeue upgradeRequeues).update (recoverAfterUpgrade now) with
        tasks := tasks } := by
  by_cases hcorrupt : ∃ req, l.record = some req ∧ req.isDecodeFailedUnwrapRequest = true
  · obtain ⟨req, hreq, hcorrupt⟩ := hcorrupt
    have hlane : l.quarantine now = ⟨some (req.quarantine now), 0, l.tasks⟩ := by
      simp [UnwrapLane.quarantine, hreq, hcorrupt, UnwrapDispatchRequest.quarantineDecodeFailed]
    rw [hlane]
    exact recoverySafe_of_terminal (Or.inr rfl)
  · have hreadable : ∀ req, l.record = some req → req.isDecodeFailedUnwrapRequest = false :=
      fun req hreq => Bool.eq_false_of_not_eq_true (fun h => hcorrupt ⟨req, hreq, h⟩)
    have hlane : l.quarantine now = l := by
      obtain ⟨record, queued, tasks⟩ := l
      cases record with
      | none => rfl
      | some req =>
          have hreq : req.isDecodeFailedUnwrapRequest = false := hreadable req rfl
          simp [UnwrapLane.quarantine, hreq, UnwrapDispatchRequest.quarantineDecodeFailed]
    rw [hlane]
    exact recoverySafe_of_orderly h hreadable

end

namespace GatewayState

def recoverUnwrapDispatchStateAfterUpgrade (now : Nat) (s : GatewayState T) : GatewayState T :=
  { s with
    unwrapRequests := s.unwrapRequests.map (UnwrapDispatchRequest.recoverAfterUpgrade now)
    unwrapDispatchQueue :=
      s.unwrapDispatchQueue.requeue (keysWhere upgradeRequeues s.unwrapRequests) }

-- the state in the middle of an action that runs two updaters
def unwrapBoundary (s : GatewayState T) : Action → GatewayState T
  | .unwrapDispatchTick now => ((popNextDispatchRequest now s).map Prod.snd).getD s
  | .postUpgrade now config => (s.applyWrapConfig config).quarantineDecodeFailedUnwrapRequests now
  | _ => s

theorem postUpgrade_recovers (s : GatewayState T) (now : Nat) (config : Option WrapConfig)
    (id : TxId) : (s.postUpgrade now config).unwrapLane id =
      { ((s.unwrapBoundary (.postUpgrade now config)).recoverUnwrapDispatchStateAfterUpgrade
        now).unwrapLane id with tasks := [] } := rfl

end GatewayState

def TransitionsKept (s : GatewayState T) : Action → Prop
  | .repairStaleOperations now => ∀ id req, s.unwrapRequests.get id = some req →
      req.dispatchStale now = false
  | .retryUnwrapDispatch _ id => ∀ req, s.unwrapRequests.get id = some req →
      req.isDecodeFailedUnwrapRequest = false
  | .resumeDispatch _ i _ => ∀ id task req, s.dispatchTasks[i]? = some (id, task) →
      s.unwrapRequests.get id = some req → req.isDecodeFailedUnwrapRequest = false
  | _ => True

structure DispatchesKept (s : GatewayState T) : Prop where
  wellFormed : s.unwrapDispatchQueue.WellFormed
  orderly : ∀ id, Orderly (s.unwrapLane id)
  coherent : ∀ id, CoherentLane (s.unwrapLane id)

section

variable {env : Env T} {s t : GatewayState T} {a : Action}

theorem dispatchesKept_init (world : World T) (config : WrapConfig)
    (ledgers : Principal → DedupLedger.Ledger Principal) :
    DispatchesKept (init world config ledgers) where
  wellFormed := SeqQueue.wellFormed_empty
  orderly := fun _ => .unknown
  coherent := fun _ _ hreq => absurd hreq (by simp [unwrapLane, init])

theorem TransitionsKept.fresh (hok : TransitionsKept s a) (id : TxId) (now : Nat)
    (ha : a = .repairStaleOperations now) (req : UnwrapDispatchRequest)
    (hreq : (s.unwrapLane id).record = some req) : req.dispatchStale now = false := by
  subst ha
  exact hok id req hreq

theorem TransitionsKept.readable (hok : TransitionsKept s a) (id : TxId) (now i : Nat)
    (reply : DispatchReply) (task : DispatchTask) (ha : a = .resumeDispatch now i reply)
    (howned : s.dispatchTasks[i]? = some (id, task)) (req : UnwrapDispatchRequest)
    (hreq : (s.unwrapLane id).record = some req) : req.isDecodeFailedUnwrapRequest = false := by
  subst ha
  exact hok id task req howned hreq

theorem DispatchesKept.step (h : DispatchesKept s) (hok : TransitionsKept s a)
    (hdone : perform env a s = some t) : DispatchesKept t where
  wellFormed := (perform_unwraps h.wellFormed hdone).wellFormed
  orderly := by
    intro id
    apply (h.orderly id).step ((perform_unwraps h.wellFormed hdone).lane id)
    · intro now ha req hreq hstale
      exact absurd (hstale.symm.trans (hok.fresh id now ha req hreq)) (by simp)
    · rintro now rfl req hreq
      exact hok req hreq
  coherent := fun id => (h.coherent id).step (h.orderly id)
    ((perform_unwraps h.wellFormed hdone).lane id) (hok.fresh id)

theorem DispatchesKept.undecodable (h : DispatchesKept s) (id : TxId) :
    DispatchesKept (s.unwrapUndecodable id) where
  wellFormed := h.wellFormed
  orderly := by
    intro R
    rw [unwrapLane_undecodable]
    split_ifs
    · exact (h.orderly R).undecodable
    · exact h.orderly R
  coherent := by
    intro R
    rw [unwrapLane_undecodable]
    split_ifs
    · exact coherentLane_map (h.coherent R) rfl (fun _ _ => coherent_placeholder)
    · exact h.coherent R

theorem DispatchesKept.tick_safe (h : DispatchesKept s) {now : Nat} (id : TxId)
    (hdone : unwrapDispatchTick env now s = some t) :
    TransitionSafe (s.unwrapLane id) ((s.unwrapBoundary (.unwrapDispatchTick now)).unwrapLane id) ∧
      TransitionSafe ((s.unwrapBoundary (.unwrapDispatchTick now)).unwrapLane id)
        (t.unwrapLane id) := by
  rw [unwrapDispatchTick_eq] at hdone
  obtain ⟨⟨r, u⟩, hpop, rfl⟩ := Option.map_eq_some_iff.mp hdone
  have hboundary : s.unwrapBoundary (.unwrapDispatchTick now) = u := by
    rw [unwrapBoundary, hpop]
    rfl
  rw [hboundary]
  have hpops := popNextDispatchRequest_unwraps h.wellFormed hpop
  cases r with
  | error e =>
      exact ⟨transitionSafe_popFails (h.coherent id) (h.orderly id) (hpops.2 id), .refl _⟩
  | ok popped =>
      obtain ⟨other, new⟩ := popped
      obtain ⟨-, hother, req, n, hfound, hsound, hqueued, rfl, hlane⟩ := hpops
      dsimp only
      by_cases hid : id = other
      · subst hid
        refine ⟨?_, ?_⟩
        · rw [hlane]
          exact (h.orderly id).transitionSafe_popped (h.coherent id) hfound hsound hqueued
        · have hdispatches : Dispatches now (u.unwrapLane id)
              ((u.dispatchUnwrapRequestInternal env id now (req.markDispatching now)).unwrapLane id) :=
            dispatchUnwrapRequestInternal_dispatches
          rw [hlane] at hdispatches ⊢
          exact transitionSafe_dispatches rfl hdispatches
      · rw [hother id hid, dispatchUnwrapRequestInternal_of_ne hid, hother id hid]
        exact ⟨.refl _, .refl _⟩

end

theorem unwrap_transitions_safe {env : Env T} {world : World T} {config : WrapConfig}
    {ledgers : Principal → DedupLedger.Ledger Principal} {s t : GatewayState T} {a : Action} (id : TxId)
    (run : CorruptRun env TransitionsKept (init world config ledgers) s) (ok : TransitionsKept s a)
    (done : perform env a s = some t) :
    TransitionSafe (s.unwrapLane id) ((s.unwrapBoundary a).unwrapLane id) ∧
    ((∀ now config, a ≠ .postUpgrade now config) →
      TransitionSafe ((s.unwrapBoundary a).unwrapLane id) (t.unwrapLane id)) ∧
    ∀ now config, a = .postUpgrade now config →
      RecoverySafe now ((s.unwrapBoundary a).unwrapLane id) (t.unwrapLane id) := by
  have hkept : DispatchesKept s := by
    clear done ok
    induction run with
    | start => exact dispatchesKept_init world config ledgers
    | step _ ok _ done ih => exact ih.step ok done
    | undecodable _ id ih => exact ih.undecodable id
  have hstep := (perform_unwraps hkept.wellFormed done).lane id
  cases a with
  | unwrapDispatchTick now =>
      obtain ⟨hpop, hdispatch⟩ := hkept.tick_safe id done
      exact ⟨hpop, fun _ => hdispatch, fun _ _ ha => absurd ha (by simp)⟩
  | postUpgrade now config =>
      obtain rfl := Option.some.inj done
      rw [unwrapLane_postUpgrade hkept.wellFormed]
      have hboundary : (s.unwrapBoundary (.postUpgrade now config)).unwrapLane id =
          (s.unwrapLane id).quarantine now := unwrapLane_configured s now config id
      rw [hboundary]
      refine ⟨transitionSafe_quarantine (hkept.coherent id), ?_, ?_⟩
      · intro hne
        exact absurd rfl (hne now config)
      · rintro _ _ ⟨⟩
        exact recoverySafe_quarantine (hkept.orderly id)
  | _ =>
      refine ⟨.refl _, ?_, fun _ _ ha => absurd ha (by simp)⟩
      intro hne
      exact (hkept.orderly id).transitionSafe (hkept.coherent id) hstep (by simp) hne (ok.fresh id)
        (ok.readable id)

section

theorem unwrap_transitions_safe_run :
    ∃ t, perform sampleGateway (.unwrapDispatchTick 1) sampleQueued = some t ∧
      TransitionSafe (sampleQueued.unwrapLane sampleQuarantineId)
        ((sampleQueued.unwrapBoundary (.unwrapDispatchTick 1)).unwrapLane sampleQuarantineId) := by
  have hrun : CorruptRun sampleGateway TransitionsKept sampleStart sampleQueued := by
    apply CorruptRun.step .start (a := .dispatchUnwrapRequest 1 sampleQuarantineId [60] 1000 [70])
      trivial Nat.one_pos
    rfl
  have hdone : (perform sampleGateway (.unwrapDispatchTick 1) sampleQueued).isSome = true := by
    decide +kernel
  obtain ⟨t, ht⟩ := Option.isSome_iff_exists.mp hdone
  have hok : TransitionsKept sampleQueued (.unwrapDispatchTick 1) := trivial
  exact ⟨t, ht, (unwrap_transitions_safe sampleQuarantineId hrun hok ht).1⟩

theorem repair_transition_unsafe :
    ∃ s old new, Run sampleGateway (fun _ _ => True) sampleStart s ∧
      (s.unwrapLane sampleQuarantineId).record = some old ∧
        ((s.repairStaleOperations laterThanStale).unwrapLane sampleQuarantineId).record = some new ∧
          new.status ≠ old.status ∧ ∀ ledgerTxIdPresent errorPresent queueInserted,
            unwrapDispatchTransitionSafeRaw old.status.raw new.status.raw ledgerTxIdPresent
              errorPresent queueInserted = false := by
  obtain ⟨s, hrun, hfound⟩ := run_of_any sampleGateway
    [.dispatchUnwrapRequest 1 sampleQuarantineId [60] 1000 [70], .unwrapDispatchTick 1] sampleStart
    (fun s => (s.unwrapRequests.get sampleQuarantineId).any (fun old : UnwrapDispatchRequest => decide
      (old.status = .dispatching ∧ old.dispatchStale laterThanStale = true)))
    (by decide) (fun _ _ _ => trivial) (by decide +kernel)
  obtain ⟨old, hold, hboth⟩ := (Option.any_eq_true _ _).mp hfound
  obtain ⟨hstatus, hstale⟩ := of_decide_eq_true hboth
  have hnew : (old.repairStale laterThanStale).status = .queued := repairStale_of_stale hstale
  refine ⟨s, old, old.repairStale laterThanStale, hrun, hold, ?_, ?_, ?_⟩
  · have hget : (s.repairStaleOperations laterThanStale).unwrapRequests.get sampleQuarantineId =
        (s.unwrapRequests.get sampleQuarantineId).map
          (UnwrapDispatchRequest.repairStale laterThanStale) := OrdMap.get_map ..
    exact hget.trans (by rw [hold, Option.map_some])
  · rw [hnew, hstatus]
    simp
  · intro ledgerTxIdPresent errorPresent queueInserted
    rw [hnew, hstatus]
    rfl

end

end Kasane.Gateway
