import Kasane.Gateway.FeeFirst
import Kasane.Gateway.Grounded

namespace Kasane.Gateway

open BigEndian Word Chain Exec
open WrapStoredRequest

variable {T : Type}

structure DepositFlow.Matches (flow : DepositFlow) (req : WrapStoredRequest) : Prop where
  amount : flow.amount = req.amount
  recipient : flow.evmRecipient = req.evmRecipient
  wei : flow.amountWei = req.amount * weiPerE8s

theorem DepositFlow.Matches.extends {flow : DepositFlow} {old new : WrapStoredRequest}
    (h : flow.Matches old) (hextends : Extends old new) : flow.Matches new where
  amount := h.amount.trans hextends.amount.symm
  recipient := h.recipient.trans hextends.recipient.symm
  wei := by
    rw [hextends.amount]
    exact h.wei

theorem OpensDeposit.matches {env : Env T} {id : TxId} {record : Option WrapStoredRequest} {now : Nat}
    {flow : DepositFlow} {req : WrapStoredRequest} (h : OpensDeposit env id record now flow req) :
    flow.Matches req := by
  have hwei (hamount : flow.amount = req.amount) : flow.amountWei = req.amount * weiPerE8s := by
    rw [← hamount]
    exact h.wei
  rcases h.opened with ⟨-, hmatches, -⟩ | ⟨-, policy, maxFeeE8s, rfl⟩
  · obtain ⟨-, hamount, hrecipient⟩ := of_decide_eq_true hmatches
    exact ⟨hamount.symm, hrecipient.symm, hwei hamount.symm⟩
  · exact ⟨rfl, rfl, hwei rfl⟩

def WrapTask.flow : WrapTask → Option DepositFlow
  | .depositFee _ flow => some flow
  | .depositPull _ flow => some flow
  | _ => none

namespace Lane

structure Flows (l : Lane) : Prop where
  known : l.record = none → l.tasks = []
  carried : ∀ req, l.record = some req → ∀ task ∈ l.tasks, ∀ flow, task.flow = some flow →
    flow.Matches req

variable {l l' : Lane}

theorem Flows.matches (h : Flows l) {task : WrapTask} {flow : DepositFlow} (htask : task ∈ l.tasks)
    (hflow : task.flow = some flow) {req : WrapStoredRequest} (hkept : Kept l l')
    (hreq : l'.record = some req) : flow.Matches req := by
  cases hrecord : l.record with
  | none =>
      rw [h.known hrecord] at htask
      exact absurd htask List.not_mem_nil
  | some old =>
      obtain ⟨new, hnew, hextends⟩ := hkept old hrecord
      obtain rfl := Option.some.inj (hnew.symm.trans hreq)
      exact (h.carried old hrecord task htask flow hflow).extends hextends

theorem Flows.resumed (h : Flows l) {task : WrapTask} {flow : DepositFlow}
    (hresumes : Resumes task l l') (hflow : task.flow = some flow)
    {f : WrapStoredRequest → WrapStoredRequest} (hf : ∀ req, Extends req (f req))
    {req : WrapStoredRequest} (hreq : (l'.update f).record = some req) : flow.Matches req :=
  h.matches hresumes.task_mem hflow ((Kept.resumes hresumes).trans (.update hf)) hreq

end Lane

namespace Lane

inductive Issues (l l' : Lane) : Prop
  | none (credits : l'.credits = l.credits) (record : l'.creditRecord = l.creditRecord)
  | one {credit : NativeCredit} {req : WrapStoredRequest} (fresh : l.creditRecord = none)
      (booked : l'.creditRecord ≠ none) (credits : l'.credits = l.credits ++ [credit])
      (found : l'.record = some req) (recipient : credit.recipient = req.evmRecipient)
      (exact : credit.amountWei = req.amount * weiPerE8s) (pulled : credit.pullLedgerTxId ≠ none)

variable {l l' l'' : Lane}

theorem Issues.since (h : Issues l' l'') (credits : l'.credits = l.credits)
    (record : l'.creditRecord = l.creditRecord) : Issues l l'' := by
  cases h with
  | none credits' record' => exact .none (credits'.trans credits) (record'.trans record)
  | one fresh booked credits' found recipient exact pulled =>
      exact .one (record ▸ fresh) booked (credits ▸ credits') found recipient exact pulled

theorem Issues.resumes {task : WrapTask} (h : Issues l' l'') (hresumes : Resumes task l l') :
    Issues l l'' := by
  obtain ⟨before, after, -, rfl⟩ := hresumes
  exact h.since rfl rfl

theorem Issues.update {f : WrapStoredRequest → WrapStoredRequest} (h : Issues l l')
    (hf : ∀ req, Extends req (f req)) : Issues l (l'.update f) := by
  cases h with
  | none credits record => exact .none credits record
  | one fresh booked credits found recipient exact pulled =>
      refine .one fresh booked credits (by rw [Lane.update, found, Option.map_some]) ?_ ?_ pulled
      · exact recipient.trans (hf _).recipient.symm
      · rw [(hf _).amount]
        exact exact

theorem Issues.release (h : Issues l l') : Issues l l'.release := by
  cases h with
  | none credits record => exact .none credits record
  | one fresh booked credits found recipient exact pulled =>
      exact .one fresh booked credits found recipient exact pulled

theorem CreditsNative.issues {id : TxId} {recipient : Address} {amountWei : Nat}
    {outcome : Except String Unit} {req : WrapStoredRequest}
    (h : CreditsNative id recipient amountWei l outcome l') (hfound : l.record = some req)
    (hrecipient : recipient = req.evmRecipient) (hwei : amountWei = req.amount * weiPerE8s)
    (hpull : req.result.pullLedgerTxId ≠ none) : Issues l l' := by
  cases h with
  | refused => exact .none rfl rfl
  | known => exact .none rfl rfl
  | credited fresh =>
      refine .one fresh (Option.some_ne_none _) rfl hfound hrecipient hwei ?_
      rw [hfound]
      exact hpull

theorem Finalizes.issues {id : TxId} {now : Nat} {flow : DepositFlow} {req : WrapStoredRequest}
    (h : Finalizes id now flow req l l') (hfound : l.record = some req) (hflow : flow.Matches req)
    (hpull : req.result.pullLedgerTxId ≠ none) : Issues l l' := by
  cases h with
  | done => exact .none rfl rfl
  | credits credits =>
      have hissues := credits.issues hfound hflow.recipient hflow.wei hpull
      exact (hissues.update (fun req => .finalizeNativeDepositCredit req now id _)).release

theorem Deposits.issues {id : TxId} {now : Nat} {flow : DepositFlow} {req : WrapStoredRequest}
    (h : Deposits id now flow req l l') (hfound : l.record = some req) (hflow : flow.Matches req) :
    Issues l l' := by
  cases h with
  | pulls => exact .none rfl rfl
  | finalizes pulled finalizes => exact finalizes.issues hfound hflow pulled

theorem pulled_recordPull {now : Nat} {pullLedgerTxId : LedgerTxId} {req : WrapStoredRequest}
    (h : (l.update (recordNativeDepositPulled pullLedgerTxId now)).record = some req) :
    req.result.pullLedgerTxId ≠ none := by
  obtain ⟨old, -, rfl⟩ := Option.map_eq_some_iff.mp h
  exact Option.some_ne_none _

end Lane

open Lane in
theorem LaneStep.issues {env : Env T} {id : TxId} {c c' : StableState (World T)} {a : Action}
    {l l' : Lane} (h : LaneStep env id c c' a l l') (hl : Flows l) : Issues l l' := by
  have hsame {task : WrapTask} {l₀ l' : Lane} (hresumes : Resumes task l l₀)
      (credits : l'.credits = l₀.credits) (record : l'.creditRecord = l₀.creditRecord) :
      Issues l l' := (Issues.none credits record).resumes hresumes
  cases h with
  | other => exact .none rfl rfl
  | forget => exact .none rfl rfl
  | submit => exact .none rfl rfl
  | unpaid _ resumes => exact hsame resumes rfl rfl
  | paid _ resumes => exact hsame resumes rfl rfl
  | launch _ _ executes =>
      cases executes with
      | pulls => exact .none rfl rfl
      | mints _ starts => cases starts <;> exact .none rfl rfl
  | unpulled _ resumes => exact hsame resumes rfl rfl
  | pulled resumes starts => cases starts <;> exact hsame resumes rfl rfl
  | mint resumes submits => cases submits <;> exact hsame resumes rfl rfl
  | recover => exact .none rfl rfl
  | refunded _ resumes => exact hsame resumes rfl rfl
  | depositFee => exact .none rfl rfl
  | depositAgain _ opens _ deposits => exact (deposits.issues rfl opens.matches).since rfl rfl
  | depositUnpaid _ resumes => exact hsame resumes rfl rfl
  | depositPaid resumes found deposits =>
      have hmatches := hl.resumed resumes rfl (fun req => .recordWrapFeeCollected req _ _) found
      refine Issues.resumes ?_ resumes
      exact (deposits.issues found hmatches).since rfl rfl
  | depositUnpulled _ resumes => exact hsame resumes rfl rfl
  | depositPulled resumes found finalizes =>
      have hmatches := hl.resumed resumes rfl (fun req => .recordWrapPullSuccess req _ _) found
      have hissues := finalizes.issues found hmatches (pulled_recordPull found)
      refine Issues.resumes ?_ resumes
      exact hissues.since rfl rfl
  | depositLost _ _ resumes => exact hsame resumes rfl rfl
  | retry found allowed wei credits =>
      obtain ⟨-, -, -, hpull, rfl⟩ := retryNativeDeposit_ok allowed
      have hissues := credits.issues rfl rfl (GatewayState.nativeDepositAmountWei_ok wei) hpull
      exact (hissues.update (fun req => .finishRetry req id _)).since rfl rfl
  | retryRefused => exact .none rfl rfl
  | settle => exact .none rfl rfl
  | repair => exact .none rfl rfl
  | upgrade => exact .none rfl rfl

namespace Lane

variable {l l' : Lane}

theorem Kept.exact (h : Kept l l') {credit : NativeCredit}
    (hexact : ∃ req, l.record = some req ∧ credit.recipient = req.evmRecipient ∧
      credit.amountWei = req.amount * weiPerE8s ∧ credit.pullLedgerTxId ≠ none) :
    ∃ req, l'.record = some req ∧ credit.recipient = req.evmRecipient ∧
      credit.amountWei = req.amount * weiPerE8s ∧ credit.pullLedgerTxId ≠ none := by
  obtain ⟨old, hold, hrecipient, hwei, hpull⟩ := hexact
  obtain ⟨new, hnew, hextends⟩ := h old hold
  refine ⟨new, hnew, hrecipient.trans hextends.recipient.symm, ?_, hpull⟩
  rw [hextends.amount]
  exact hwei

theorem opened_priced {env : Env T} {id : TxId} {now : Nat} {flow : DepositFlow}
    {req : WrapStoredRequest} (h : OpensDeposit env id none now flow req) :
    req.result.chargedGasPriceWei = some 0 := by
  rcases h.opened with ⟨hrecord, -⟩ | ⟨-, policy, maxFeeE8s, rfl⟩
  · exact absurd hrecord (by simp)
  · rfl

end Lane

open Lane in
theorem LaneStep.priced {env : Env T} {id : TxId} {c c' : StableState (World T)} {a : Action}
    {l l' : Lane} (h : LaneStep env id c c' a l l') (hknown : l.record = none → l.tasks = [])
    (hpriced : ∀ req, l.record = some req → req.gasLimit = 0 →
      req.result.chargedGasPriceWei = some 0)
    (req : WrapStoredRequest) (hreq : l'.record = some req) (hgas : req.gasLimit = 0) :
    req.result.chargedGasPriceWei = some 0 := by
  cases hrecord : l.record with
  | some old =>
      obtain ⟨new, hnew, hextends⟩ := h.kept old hrecord
      obtain rfl := Option.some.inj (hnew.symm.trans hreq)
      rw [hextends.price]
      exact hpriced old hrecord (hextends.gas ▸ hgas)
  | none =>
      have hresumes {t : Prop} {task : WrapTask} {l' : Lane} (hresumes : Resumes task l l') : t := by
        have htask := hresumes.task_mem
        rw [hknown hrecord] at htask
        exact absurd htask List.not_mem_nil
      have hfound {t : Prop} {old : WrapStoredRequest} (hold : l.record = some old) : t := by
        rw [hrecord] at hold
        exact absurd hold (by simp)
      have hupdate {t : Prop} {f : WrapStoredRequest → WrapStoredRequest} {new : WrapStoredRequest}
          (hnew : (l.update f).record = some new) : t := by
        rw [update, hrecord] at hnew
        exact absurd hnew (by simp)
      cases h with
      | other => exact hfound hreq
      | forget => exact hfound hreq
      | submit _ opens =>
          obtain rfl := Option.some.inj hreq
          exact absurd hgas opens.gas
      | unpaid _ resumes => exact hresumes resumes
      | paid _ resumes => exact hresumes resumes
      | launch found => exact hfound found
      | unpulled _ resumes => exact hresumes resumes
      | pulled resumes => exact hresumes resumes
      | mint resumes => exact hresumes resumes
      | recover found => exact hfound found
      | refunded _ resumes => exact hresumes resumes
      | depositFee _ opens =>
          obtain rfl := Option.some.inj hreq
          exact opened_priced (hrecord ▸ opens)
      | depositAgain _ opens _ deposits =>
          obtain ⟨new, hnew, hextends⟩ := (Kept.deposits deposits) _ rfl
          obtain rfl := Option.some.inj (hnew.symm.trans hreq)
          rw [hextends.price]
          exact opened_priced (hrecord ▸ opens)
      | depositUnpaid _ resumes => exact hresumes resumes
      | depositPaid resumes => exact hresumes resumes
      | depositUnpulled _ resumes => exact hresumes resumes
      | depositPulled resumes => exact hresumes resumes
      | depositLost _ _ resumes => exact hresumes resumes
      | retry found => exact hfound found
      | retryRefused _ found => exact hfound found
      | settle => exact hupdate hreq
      | repair => exact hupdate hreq
      | upgrade => exact hupdate hreq

theorem mintTx_free {env : Env T} {factory : Address} {req : WrapStoredRequest} {decimals : UInt8}
    {nonce : UInt64} {suggested : BitVec 128} (h : req.result.chargedGasPriceWei = some 0) :
    (mintTx env.crypto factory req decimals nonce suggested).maxPriorityFeePerGas.toNat = 0 := by
  simp only [mintTx, h, Option.getD_some]
  split_ifs with hle
  · exact Nat.le_zero.mp hle
  · rfl

open Lane in
theorem Lane.SubmitsMint.free {env : Env T} {id : TxId} {now : Nat} {factory : Address}
    {req : WrapStoredRequest} {pullLedgerTxId : LedgerTxId} {c c' : StableState (World T)}
    {l l' : Lane} (h : SubmitsMint env id now factory req pullLedgerTxId c l c' l')
    (hfloor : 0 < c.chainState.minPriorityFee) (hprice : req.result.chargedGasPriceWei = some 0)
    (mint : Mint) (hmint : mint ∈ l'.mints) : mint ∈ l.mints ∨ mint.accepted = false := by
  cases h with
  | stopped => exact Or.inl hmint
  | unpriced => exact Or.inl hmint
  | accepted sent =>
      -- a transaction without a priority fee is refused by the fee floor
      obtain ⟨decimals, suggested, htx⟩ := sent.built
      have hpriority := admitted_priority sent.sent
      rw [htx, mintTx_free hprice] at hpriority
      exact absurd hpriority (not_le.mpr hfloor)
  | duplicate =>
      rcases List.mem_append.mp hmint with hmint | hmint
      · exact Or.inl hmint
      · exact Or.inr (congrArg Mint.accepted (List.mem_singleton.mp hmint))
  | rejected => exact Or.inl hmint

open GatewayState

section

end

end Kasane.Gateway
