import Kasane.Gateway.MintOnce
import Kasane.Gateway.Payouts
import Kasane.Gateway.UnwrapLane

namespace Kasane.Gateway

open BigEndian Codec Word Chain Exec
open UnwrapDispatchRequest UnwrapLane

variable {T : Type}

def UnwrapDispatchRequest.decodeFailurePlaceholder : UnwrapDispatchRequest where
  assetId := [0]
  amount := 0
  recipient := [0]
  status := .dispatchFailed
  ledgerTxId := none
  errorCode := some unwrapDecodeFailureCode
  updatedAt := 0
  transferCreatedAtTime := 0

-- the stored bytes stay what they are, every read of them gives the placeholder
def GatewayState.unwrapUndecodable (s : GatewayState T) (id : TxId) : GatewayState T :=
  { s with unwrapRequests := s.unwrapRequests.modify id (fun _ => decodeFailurePlaceholder) }

inductive CorruptRun (env : Env T) (allowed : GatewayState T → Action → Prop) (s₀ : GatewayState T) :
    GatewayState T → Prop
  | start : CorruptRun env allowed s₀ s₀
  | step {s t : GatewayState T} {a : Action} (run : CorruptRun env allowed s₀ s) (ok : allowed s a)
      (clock : 0 < a.now) (done : perform env a s = some t) : CorruptRun env allowed s₀ t
  | undecodable {s : GatewayState T} (run : CorruptRun env allowed s₀ s) (id : TxId) :
      CorruptRun env allowed s₀ (s.unwrapUndecodable id)

def Banned (id : TxId) (s : GatewayState T) : Prop :=
  ∃ req, s.unwrapRequests.get id = some req ∧ req.shouldSkipDispatchUnwrapRequest = true

def QuarantineKept (id : TxId) (s : GatewayState T) : Action → Prop
  | .retryUnwrapDispatch _ target => target = id → ¬ Banned id s
  | .resumeDispatch _ i _ => ∀ task, s.dispatchTasks[i]? = some (id, task) → ¬ Banned id s
  | _ => True

def payoutsSent (s : GatewayState T) (id : TxId) : Nat :=
  (s.calls.map (fun call => call.origin)).count (.payout id)

section

variable {now : Nat} {req : UnwrapDispatchRequest}

theorem skip_quarantine : (req.quarantine now).shouldSkipDispatchUnwrapRequest = true :=
  decide_eq_true (Or.inr rfl)

theorem skip_quarantineDecodeFailed (h : req.shouldSkipDispatchUnwrapRequest = true) :
    (req.quarantineDecodeFailed now).shouldSkipDispatchUnwrapRequest = true := by
  rw [UnwrapDispatchRequest.quarantineDecodeFailed]
  split_ifs
  · exact skip_quarantine
  · exact h

theorem skip_repairStale (h : req.shouldSkipDispatchUnwrapRequest = true) :
    (req.repairStale now).shouldSkipDispatchUnwrapRequest = true := by
  rw [repairStale]
  split_ifs
  · exact h
  · exact h

theorem skip_recoverAfterUpgrade (h : req.shouldSkipDispatchUnwrapRequest = true) :
    (req.recoverAfterUpgrade now).shouldSkipDispatchUnwrapRequest = true := by
  rw [recoverAfterUpgrade]
  split_ifs
  · exact h
  · exact h

end

open GatewayState

section

variable {env : Env T} {id : TxId} {a : Action} {s t : GatewayState T}

theorem Banned.step (h : Banned id s) (step : UnwrapKeeps a s t) (hok : QuarantineKept id s a) :
    Banned id t := by
  have hbanned : Banned id s := h
  obtain ⟨req, hfound, hskip⟩ := h
  have hreq : (s.unwrapLane id).record = some req := hfound
  have hlane := step.lane id
  change ∃ req, (t.unwrapLane id).record = some req ∧ req.shouldSkipDispatchUnwrapRequest = true
  generalize t.unwrapLane id = l' at hlane ⊢
  cases hlane with
  | other => exact ⟨req, hreq, hskip⟩
  | opened _ fresh => exact absurd (hreq.symm.trans fresh) (by simp)
  | forgotten unknown => exact absurd (hreq.symm.trans unknown) (by simp)
  | quarantined found => exact ⟨_, rfl, skip_quarantine⟩
  | popped found sound =>
      obtain rfl := Option.some.inj (hreq.symm.trans found)
      exact absurd (hskip.symm.trans sound) (by simp)
  | resumed owned => exact absurd hbanned (hok _ owned)
  | retried => exact absurd hbanned (hok rfl)
  | @repaired now =>
      refine ⟨req.repairStale now, ?_, skip_repairStale hskip⟩
      rw [record_update, record_requeue, hreq, Option.map_some]
  | @upgraded now config =>
      refine ⟨(req.quarantineDecodeFailed now).recoverAfterUpgrade now, ?_,
        skip_recoverAfterUpgrade (skip_quarantineDecodeFailed hskip)⟩
      rw [record_update, record_requeue, record_quarantine, hreq, Option.map_some, Option.map_some]

theorem Banned.silent (h : Banned id s) (h' : Banned id t) (step : PayoutStep env id a s t)
    (hok : QuarantineKept id s a) : payoutsSent t id = payoutsSent s id := by
  obtain ⟨sent, hsent, hsends⟩ := step.origins
  have hnone : sent.count (.payout id) = 0 := by
    apply List.count_eq_zero.mpr
    intro hpayout
    obtain ⟨new, hnew⟩ := hsends hpayout
    cases hnew with
    | token found sound =>
        obtain ⟨req, hreq, hskip⟩ := h'
        obtain rfl := Option.some.inj (found.symm.trans hreq)
        exact absurd (sound.symm.trans hskip) (by simp)
    | native action resumed =>
        subst action
        exact hok _ resumed h
  rw [payoutsSent, payoutsSent, hsent, List.count_append, hnone, Nat.add_zero]

theorem Banned.undecodable (h : Banned id s) (other : TxId) :
    Banned id (s.unwrapUndecodable other) := by
  obtain ⟨req, hreq, hskip⟩ := h
  by_cases hother : id = other
  · subst hother
    refine ⟨decodeFailurePlaceholder, ?_, by decide⟩
    change (s.unwrapRequests.modify id (fun _ => decodeFailurePlaceholder)).get id = _
    rw [OrdMap.get_modify_self, hreq, Option.map_some]
  · refine ⟨req, ?_, hskip⟩
    exact (OrdMap.get_modify_of_ne _ _ hother).trans hreq

end

theorem corruptRun_wellFormed {env : Env T} {allowed : GatewayState T → Action → Prop}
    {s₀ s : GatewayState T} (run : CorruptRun env allowed s₀ s)
    (start : s₀.unwrapDispatchQueue.WellFormed) : s.unwrapDispatchQueue.WellFormed := by
  induction run with
  | start => exact start
  | step _ _ _ done ih => exact (perform_unwraps ih done).wellFormed
  | undecodable _ _ ih => exact ih

theorem quarantined_not_dispatched {env : Env T} {world : World T} {config : WrapConfig}
    {ledgers : Principal → DedupLedger.Ledger Principal} {id : TxId} {s₁ s : GatewayState T}
    (before : CorruptRun env (fun _ _ => True) (init world config ledgers) s₁)
    (banned : Banned id s₁) (after : CorruptRun env (QuarantineKept id) s₁ s) :
    payoutsSent s id = payoutsSent s₁ id := by
  have hstart : s₁.unwrapDispatchQueue.WellFormed :=
    corruptRun_wellFormed before SeqQueue.wellFormed_empty
  have hinv : Banned id s ∧ payoutsSent s id = payoutsSent s₁ id := by
    induction after with
    | start => exact ⟨banned, rfl⟩
    | step run ok clock done ih =>
        obtain ⟨hbanned, hsent⟩ := ih
        have hnext := hbanned.step (perform_unwraps (corruptRun_wellFormed run hstart) done) ok
        exact ⟨hnext, (hbanned.silent hnext (perform_payouts clock done id) ok).trans hsent⟩
    | undecodable run other ih => exact ⟨ih.1.undecodable other, ih.2⟩
  exact hinv.2

section

def sampleQuarantineId : TxId := zeroArr 32

def sampleUndecodable : GatewayState Unit :=
  (sampleStart.insertUnwrapDispatchRequest sampleQuarantineId
    (.new [60] 1000 [70] 1)).unwrapUndecodable sampleQuarantineId

theorem corruptRun_of_run {env : Env T} {allowed : GatewayState T → Action → Prop}
    {s₀ s : GatewayState T} (run : Run env allowed s₀ s) : CorruptRun env allowed s₀ s := by
  induction run with
  | start => exact .start
  | step _ ok clock done ih => exact .step ih ok clock done

theorem sampleUndecodable_run :
    CorruptRun sampleGateway (fun _ _ => True) sampleStart sampleUndecodable := by
  apply CorruptRun.undecodable
  apply CorruptRun.step .start trivial
    (a := .dispatchUnwrapRequest 1 sampleQuarantineId [60] 1000 [70]) Nat.one_pos
  rfl

theorem sampleUndecodable_banned : Banned sampleQuarantineId sampleUndecodable :=
  ⟨decodeFailurePlaceholder, by decide +kernel, by decide⟩

theorem quarantined_not_dispatched_run :
    ∃ s, CorruptRun sampleGateway (QuarantineKept sampleQuarantineId) sampleUndecodable s ∧
      s.unwrapDispatchQueue.count sampleQuarantineId = 0 ∧
        payoutsSent s sampleQuarantineId = payoutsSent sampleUndecodable sampleQuarantineId := by
  have hreached : ∃ s, Run sampleGateway (QuarantineKept sampleQuarantineId) sampleUndecodable s ∧
      decide (s.unwrapDispatchQueue.count sampleQuarantineId = 0) = true :=
    run_of_any sampleGateway [.unwrapDispatchTick 1, .repairStaleOperations 1, .postUpgrade 1 none]
      sampleUndecodable _ (by decide) (by simp [QuarantineKept]) (by decide +kernel)
  obtain ⟨s, hrun, hempty⟩ := hreached
  exact ⟨s, corruptRun_of_run hrun, of_decide_eq_true hempty,
    quarantined_not_dispatched sampleUndecodable_run sampleUndecodable_banned
      (corruptRun_of_run hrun)⟩

theorem quarantined_dispatched :
    ∃ s₁ s, CorruptRun sampleGateway (fun _ _ => True) sampleStart s₁ ∧
      Banned sampleQuarantineId s₁ ∧ CorruptRun sampleGateway (fun _ _ => True) s₁ s ∧
        payoutsSent s₁ sampleQuarantineId = 0 ∧ payoutsSent s sampleQuarantineId = 1 := by
  obtain ⟨s, hrun, hsent⟩ := run_of_any sampleGateway
    [.unwrapDispatchTick 1, .retryUnwrapDispatch 1 sampleQuarantineId, .unwrapDispatchTick 1]
    sampleUndecodable (fun s => decide (payoutsSent s sampleQuarantineId = 1))
    (by decide) (fun _ _ _ => trivial) (by decide +kernel)
  exact ⟨sampleUndecodable, s, sampleUndecodable_run, sampleUndecodable_banned,
    corruptRun_of_run hrun, by decide +kernel, of_decide_eq_true hsent⟩

end

end Kasane.Gateway
