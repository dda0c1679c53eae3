import Kasane.Gateway.MintOnce

namespace Kasane.Gateway

open BigEndian Word Chain Exec
open WrapStoredRequest

variable {T : Type}

def WrapTask.pulls : WrapTask → Bool
  | .pull _ _ => true
  | .decimals _ _ _ => true
  | .depositPull _ _ => true
  | _ => false

namespace Lane

structure Untouched (l : Lane) : Prop where
  unqueued : l.queued = 0
  idle : ∀ task ∈ l.tasks, task.pulls = false
  unpulled : ∀ req, l.record = some req → req.result.pullLedgerTxId = none
  unsent : l.pullSent = false
  unminted : l.mints = []

structure FeeFirst (l : Lane) : Prop where
  known : l.record = none → l.tasks = []
  paidOrUntouched : l.Paid ∨ l.Untouched

variable {l l' : Lane}

theorem Untouched.update {f : WrapStoredRequest → WrapStoredRequest} (h : Untouched l)
    (hf : ∀ req, (f req).result.pullLedgerTxId = req.result.pullLedgerTxId) :
    Untouched (l.update f) := by
  refine ⟨h.unqueued, h.idle, ?_, h.unsent, h.unminted⟩
  intro req hreq
  obtain ⟨old, hold, rfl⟩ := Option.map_eq_some_iff.mp hreq
  rw [hf]
  exact h.unpulled old hold

theorem Untouched.resume {task : WrapTask} (h : Untouched l) (hresumes : Resumes task l l') :
    Untouched l' := by
  have hmem (task' : WrapTask) (htask' : task' ∈ l'.tasks) : task' ∈ l.tasks := hresumes.mem htask'
  obtain ⟨before, after, -, rfl⟩ := hresumes
  exact ⟨h.unqueued, fun task' htask' => h.idle task' (hmem task' htask'), h.unpulled, h.unsent,
    h.unminted⟩

theorem Untouched.open {req : WrapStoredRequest} {task : WrapTask} (h : Untouched l)
    (hpull : req.result.pullLedgerTxId = none) (htask : task.pulls = false) :
    Untouched ((l.reserve req).suspend task) := by
  refine ⟨h.unqueued, ?_, ?_, h.unsent, h.unminted⟩
  · intro task' htask'
    rcases mem_suspend htask' with htask' | rfl
    · exact h.idle task' htask'
    · exact htask
  · intro found hfound
    obtain rfl := Option.some.inj hfound
    exact hpull

theorem Untouched.failDeposit {now : Nat} {code : String} (h : Untouched l) :
    Untouched (l.failDeposit now code) := by
  have hfailed := h.update (f := recordWrapRequestFailure code false now) (fun _ => rfl)
  exact ⟨hfailed.unqueued, hfailed.idle, hfailed.unpulled, hfailed.unsent, hfailed.unminted⟩

def RequeuesPaid (l : Lane) : Action → Prop
  | .repairStaleOperations now => l.record.any (runStale now) = true → l.Paid
  | .postUpgrade _ _ => l.record.any upgradeRequeues = true → l.Paid
  | _ => True

theorem pull_settleRequest (c : StableState (World T)) (now : Nat) (req : WrapStoredRequest) :
    (GatewayState.settleRequest c now req).result.pullLedgerTxId = req.result.pullLedgerTxId := by
  rcases GatewayState.settleRequest_cases c now req with h | ⟨_, _, _, _, ⟨_, h⟩ | ⟨_, h⟩⟩
  · rw [h]
  · rw [h]
    rfl
  · rw [h]
    rfl

theorem pull_repairStale (now : Nat) (req : WrapStoredRequest) :
    (req.repairStale now).result.pullLedgerTxId = req.result.pullLedgerTxId := by
  rw [WrapStoredRequest.repairStale]
  split_ifs <;> rfl

theorem pull_recoverAfterUpgrade (req : WrapStoredRequest) :
    req.recoverAfterUpgrade.result.pullLedgerTxId = req.result.pullLedgerTxId := by
  rw [WrapStoredRequest.recoverAfterUpgrade]
  split_ifs <;> rfl

theorem paid_recordFee {now : Nat} {feeLedgerTxId : LedgerTxId} (h : l.record ≠ none) :
    (l.update (recordWrapFeeCollected feeLedgerTxId now)).Paid := by
  obtain ⟨old, hold⟩ := Option.ne_none_iff_exists'.mp h
  refine ⟨old.recordWrapFeeCollected feeLedgerTxId now, ?_, ?_⟩
  · rw [Lane.update, hold, Option.map_some]
  · simp [recordWrapFeeCollected, sanitizeWrapRequest]

theorem Kept.record_none (h : Kept l l') (hnone : l'.record = none) : l.record = none := by
  cases hrecord : l.record with
  | none => rfl
  | some old =>
      obtain ⟨new, hnew, -⟩ := h old hrecord
      rw [hnone] at hnew
      exact absurd hnew (by simp)

end Lane

open Lane in
theorem LaneStep.known {env : Env T} {id : TxId} {c c' : StableState (World T)} {a : Action}
    {l l' : Lane} (h : LaneStep env id c c' a l l') (hknown : l.record = none → l.tasks = [])
    (hnone' : l'.record = none) : l'.tasks = [] := by
  have hnone := h.kept.record_none hnone'
  have htasks := hknown hnone
  have hresumes {task : WrapTask} {l' : Lane} (hresumes : Resumes task l l') : False := by
    have htask := hresumes.task_mem
    rw [htasks] at htask
    exact List.not_mem_nil htask
  have hfound {old : WrapStoredRequest} (hold : l.record = some old) : False := by
    rw [hnone] at hold
    exact absurd hold (by simp)
  cases h with
  | other => exact htasks
  | forget => exact htasks
  | submit => exact absurd hnone' (by simp [suspend, reserve])
  | unpaid _ resumes => exact (hresumes resumes).elim
  | paid _ resumes => exact (hresumes resumes).elim
  | launch found => exact (hfound found).elim
  | unpulled _ resumes => exact (hresumes resumes).elim
  | pulled resumes => exact (hresumes resumes).elim
  | mint resumes => exact (hresumes resumes).elim
  | recover found => exact (hfound found).elim
  | refunded _ resumes => exact (hresumes resumes).elim
  | depositFee => exact absurd hnone' (by simp [suspend, reserve])
  | depositAgain _ _ _ deposits =>
      exact absurd ((Kept.deposits deposits).record_none hnone') (by simp [reserve])
  | depositUnpaid _ resumes => exact (hresumes resumes).elim
  | depositPaid resumes => exact (hresumes resumes).elim
  | depositUnpulled _ resumes => exact (hresumes resumes).elim
  | depositPulled resumes => exact (hresumes resumes).elim
  | depositLost _ _ resumes => exact (hresumes resumes).elim
  | retry found => exact (hfound found).elim
  | retryRefused _ found => exact (hfound found).elim
  | settle => exact htasks
  | repair => exact htasks
  | upgrade => rfl

open Lane in
theorem LaneStep.feeFirst {env : Env T} {id : TxId} {c c' : StableState (World T)} {a : Action}
    {l l' : Lane} (hok : l.RequeuesPaid a) (h : LaneStep env id c c' a l l') (hl : FeeFirst l) :
    FeeFirst l' := by
  refine ⟨h.known hl.known, ?_⟩
  rcases hl.paidOrUntouched with hpaid | hu
  · exact Or.inl (h.kept.paid hpaid)
  have hheld {task : WrapTask} {l' : Lane} (hresumes : Resumes task l l')
      (hpulls : task.pulls = true) : False := by
    have hidle := hu.idle task hresumes.task_mem
    rw [hpulls] at hidle
    exact absurd hidle (by simp)
  have hfound {task : WrapTask} {l' : Lane} (hresumes : Resumes task l l') : l'.record ≠ none := by
    obtain ⟨before, after, htasks, rfl⟩ := hresumes
    intro hnone
    rw [hl.known hnone] at htasks
    exact absurd htasks (by simp)
  cases h with
  | other => exact Or.inr hu
  | forget _ fewer =>
      refine Or.inr ⟨?_, hu.idle, hu.unpulled, hu.unsent, hu.unminted⟩
      exact Nat.le_zero.mp (hu.unqueued ▸ fewer)
  | submit _ opens =>
      refine Or.inr (hu.open ?_ rfl)
      rcases opens.opened with hrecord | ⟨-, args, caller, quote, rfl⟩
      · exact hu.unpulled _ hrecord
      · rfl
  | unpaid _ resumes => exact Or.inr (hu.resume resumes).failDeposit
  | paid _ resumes => exact Or.inl (paid_recordFee (hfound resumes))
  | launch _ queued => exact absurd hu.unqueued (Nat.ne_of_gt queued)
  | unpulled _ resumes => exact (hheld resumes rfl).elim
  | pulled resumes => exact (hheld resumes rfl).elim
  | mint resumes => exact (hheld resumes rfl).elim
  | recover found allowed =>
      exact absurd (hu.unpulled _ found) (recoverFailedWrap_ok allowed).1.2.2.2.1
  | refunded transfer resumes =>
      exact Or.inr ((hu.resume resumes).update (fun req => by cases transfer <;> rfl))
  | depositFee _ opens =>
      refine Or.inr (hu.open ?_ rfl)
      rcases opens.opened with ⟨hrecord, -⟩ | ⟨-, policy, maxFeeE8s, rfl⟩
      · exact hu.unpulled _ hrecord
      · rfl
  | depositAgain _ opens paid deposits =>
      refine Or.inl ((Kept.deposits deposits).paid ?_)
      exact ⟨_, rfl, paid⟩
  | depositUnpaid _ resumes => exact Or.inr (hu.resume resumes).failDeposit
  | depositPaid resumes _ deposits =>
      exact Or.inl ((Kept.deposits deposits).paid (paid_recordFee (hfound resumes)))
  | depositUnpulled _ resumes => exact (hheld resumes rfl).elim
  | depositPulled resumes => exact (hheld resumes rfl).elim
  | depositLost _ _ resumes => exact Or.inr (hu.resume resumes)
  | retry found allowed =>
      exact absurd (hu.unpulled _ found) (retryNativeDeposit_ok allowed).2.2.2.1
  | retryRefused _ found allowed =>
      exact absurd (hu.unpulled _ found) (retryNativeDeposit_ok allowed).2.2.2.1
  | settle =>
      exact Or.inr (hu.update (fun req => pull_settleRequest c' _ req))
  | @repair now _ _ requeued =>
      by_cases hstale : l.record.any (runStale now) = true
      · refine Or.inl ((Kept.update (fun req => ?_)).paid (hok hstale))
        exact (Extends.settleRequest req _ c).trans (.repairStale _ _)
      · rw [if_neg hstale] at requeued
        rw [requeued]
        refine Or.inr (hu.update (fun req => ?_))
        rw [pull_repairStale, pull_settleRequest]
  | upgrade requeued =>
      by_cases hstale : l.record.any upgradeRequeues = true
      · exact Or.inl ((Kept.update Extends.recoverAfterUpgrade).paid (hok hstale))
      · rw [if_neg hstale] at requeued
        have hrecovered := hu.update pull_recoverAfterUpgrade
        refine Or.inr ⟨?_, fun _ htask => absurd htask List.not_mem_nil, hrecovered.unpulled,
          hu.unsent, hu.unminted⟩
        rw [requeued]
        exact hu.unqueued

def Action.requeues : Action → Bool
  | .repairStaleOperations _ => true
  | .postUpgrade _ _ => true
  | _ => false

def RequeuesPaid (id : TxId) (s : GatewayState T) : Action → Prop
  | .repairStaleOperations now => ∀ req, s.wrapRequests.get id = some req →
      req.runStale now = true → req.result.feeLedgerTxId ≠ none
  | .postUpgrade _ _ => ∀ req, s.wrapRequests.get id = some req →
      req.upgradeRequeues = true → req.result.feeLedgerTxId ≠ none
  | _ => True

theorem RequeuesPaid.lane {id : TxId} {s : GatewayState T} {a : Action} (h : RequeuesPaid id s a) :
    (s.lane id).RequeuesPaid a := by
  have hpaid {p : WrapStoredRequest → Bool}
      (hp : ∀ req, s.wrapRequests.get id = some req → p req = true →
        req.result.feeLedgerTxId ≠ none) (hneeds : (s.lane id).record.any p = true) :
      (s.lane id).Paid := by
    obtain ⟨req, hreq, hreqp⟩ := (Option.any_eq_true _ _).mp hneeds
    exact ⟨req, hreq, hp req hreq hreqp⟩
  cases a with
  | repairStaleOperations now => exact hpaid h
  | postUpgrade now config => exact hpaid h
  | _ => trivial

open GatewayState

theorem fee_before_pull {env : Env T} {world : World T} {config : WrapConfig}
    {ledgers : Principal → DedupLedger.Ledger Principal} {id : TxId} {s : GatewayState T}
    (run : Run env (RequeuesPaid id) (init world config ledgers) s) :
    (∀ req, s.wrapRequests.get id = some req → req.result.pullLedgerTxId ≠ none →
      req.result.feeLedgerTxId ≠ none) ∧
    (((∃ call ∈ s.calls, call.origin = .pull id) ∨ ∃ mint ∈ s.mints, mint.requestId = id) →
      ∃ req, s.wrapRequests.get id = some req ∧ req.result.feeLedgerTxId ≠ none) := by
  have hinv : (s.lane id).FeeFirst := by
    refine run_invariant (fun s => (s.lane id).FeeFirst) ?_ ?_ run
    · refine ⟨fun _ => rfl, Or.inr ⟨rfl, ?_, ?_, rfl, rfl⟩⟩
      · simp [lane_init, Lane.start]
      · simp [lane_init, Lane.start]
    · intro s t a hinv hok _ hdone
      exact (perform_lane hdone id).feeFirst hok.lane hinv
  constructor
  · intro req hreq hpull
    rcases hinv.paidOrUntouched with ⟨paid, hpaid, hfee⟩ | huntouched
    · obtain rfl := Option.some.inj (hpaid.symm.trans hreq)
      exact hfee
    · exact absurd (huntouched.unpulled req hreq) hpull
  · intro htouched
    rcases hinv.paidOrUntouched with hpaid | huntouched
    · exact hpaid
    · rcases htouched with ⟨call, hcall, horigin⟩ | ⟨mint, hmint, hid⟩
      · have hsent := List.any_eq_false.mp huntouched.unsent call hcall
        exact absurd horigin (by simpa using hsent)
      · have hunminted := List.filter_eq_nil_iff.mp huntouched.unminted mint hmint
        exact absurd hid (by simpa using hunminted)

theorem fee_before_pull_run :
    ∃ s, Run sampleGateway (RequeuesPaid sampleWrapId) sampleStart s ∧
      (∃ req, s.wrapRequests.get sampleWrapId = some req ∧ req.result.pullLedgerTxId ≠ none) ∧
        ∀ req, s.wrapRequests.get sampleWrapId = some req → req.result.pullLedgerTxId ≠ none →
          req.result.feeLedgerTxId ≠ none := by
  have hok : ∀ a ∈ submitAndPay ++ pullAndMint, ∀ s : GatewayState Unit,
      RequeuesPaid sampleWrapId s a := by
    intro a ha s
    have hplain := (by decide : ∀ a ∈ submitAndPay ++ pullAndMint, a.requeues = false) a ha
    cases a with
    | repairStaleOperations now => exact absurd hplain (by simp [Action.requeues])
    | postUpgrade now config => exact absurd hplain (by simp [Action.requeues])
    | _ => trivial
  obtain ⟨s, hrun, hpulled⟩ := run_of_any sampleGateway (submitAndPay ++ pullAndMint) sampleStart
    (fun s => (s.wrapRequests.get sampleWrapId).any
      (fun req : WrapStoredRequest => decide (req.result.pullLedgerTxId ≠ none)))
    (by decide) hok (by decide +kernel)
  obtain ⟨req, hreq, hpull⟩ := (Option.any_eq_true _ _).mp hpulled
  exact ⟨s, hrun, ⟨req, hreq, of_decide_eq_true hpull⟩, (fee_before_pull hrun).1⟩

theorem pull_without_fee :
    ∃ s req, Run sampleGateway (fun _ _ => True) sampleStart s ∧
      s.wrapRequests.get sampleWrapId = some req ∧ req.gasLimit ≠ 0 ∧
        req.result.pullLedgerTxId ≠ none ∧ req.result.feeLedgerTxId = none := by
  obtain ⟨s, hrun, hpulled⟩ := run_of_any sampleGateway
    [.submitWrapRequest 1 (500 * 10 ^ 9) (samplePrincipalOf 70).principal sampleWrap,
      .postUpgrade 1 none, .wrapWorkerTick 1, .ledgerExecutes 1 1 none,
      .resumeWrap 1 0 (.ledger .delivered)] sampleStart
    (fun s => (s.wrapRequests.get sampleWrapId).any (fun req : WrapStoredRequest => decide (req.gasLimit ≠ 0 ∧
      req.result.pullLedgerTxId ≠ none ∧ req.result.feeLedgerTxId = none)))
    (by decide) (fun _ _ _ => trivial) (by decide +kernel)
  obtain ⟨req, hreq, hpull⟩ := (Option.any_eq_true _ _).mp hpulled
  exact ⟨s, req, hrun, hreq, of_decide_eq_true hpull⟩

end Kasane.Gateway
