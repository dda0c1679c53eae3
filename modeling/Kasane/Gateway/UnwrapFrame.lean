import Kasane.Gateway.Projection

namespace Kasane.Gateway

open BigEndian Codec Word Chain Exec
open DedupLedger (Transfer)

variable {T : Type}

structure SparesUnwraps (s t : GatewayState T) : Prop where
  requests : t.unwrapRequests = s.unwrapRequests
  queue : t.unwrapDispatchQueue = s.unwrapDispatchQueue
  tasks : t.dispatchTasks = s.dispatchTasks
  ledgers : t.ledgers = s.ledgers
  calls : ∃ sent, t.calls = s.calls ++ sent ∧
    ∀ call ∈ sent, call.outcome = none ∧ ∀ id, call.origin ≠ .payout id

namespace SparesUnwraps

variable {s t u : GatewayState T}

theorem same (hrequests : t.unwrapRequests = s.unwrapRequests)
    (hqueue : t.unwrapDispatchQueue = s.unwrapDispatchQueue)
    (htasks : t.dispatchTasks = s.dispatchTasks) (hledgers : t.ledgers = s.ledgers)
    (hcalls : t.calls = s.calls) : SparesUnwraps s t := by
  refine ⟨hrequests, hqueue, htasks, hledgers, [], ?_, ?_⟩
  · rw [hcalls, List.append_nil]
  · intro call hcall
    exact absurd hcall List.not_mem_nil

theorem trans (h : SparesUnwraps s t) (h' : SparesUnwraps t u) : SparesUnwraps s u := by
  obtain ⟨sent, hsent, hnew⟩ := h.calls
  obtain ⟨sent', hsent', hnew'⟩ := h'.calls
  refine ⟨h'.requests.trans h.requests, h'.queue.trans h.queue, h'.tasks.trans h.tasks,
    h'.ledgers.trans h.ledgers, sent ++ sent', ?_, ?_⟩
  · rw [hsent', hsent, List.append_assoc]
  · intro call hcall
    rcases List.mem_append.mp hcall with hcall | hcall
    · exact hnew call hcall
    · exact hnew' call hcall

theorem call (s : GatewayState T) (ledger : Principal) (transfer : Transfer Principal)
    {origin : CallOrigin} (horigin : ∀ id, origin ≠ .payout id) :
    SparesUnwraps s (s.call ledger transfer origin) := by
  refine ⟨rfl, rfl, rfl, rfl, [⟨ledger, transfer, origin, none⟩], rfl, ?_⟩
  intro call hcall
  obtain rfl := List.mem_singleton.mp hcall
  exact ⟨rfl, horigin⟩

end SparesUnwraps

namespace GatewayState

variable {env : Env T} {s t : GatewayState T} {id : TxId} {now : Nat}

theorem spares_startMint {req : WrapStoredRequest} {pullLedgerTxId : LedgerTxId} :
    SparesUnwraps s (s.startMint id now req pullLedgerTxId) := by
  rw [startMint]
  split
  · exact .same rfl rfl rfl rfl rfl
  · split
    · exact .same rfl rfl rfl rfl rfl
    · exact .same rfl rfl rfl rfl rfl

theorem spares_executeWrapRequest {req : WrapStoredRequest} :
    SparesUnwraps s (s.executeWrapRequest env id now req) := by
  rw [executeWrapRequest]
  split
  · exact spares_startMint
  · rw [startPull]
    have hmarked : SparesUnwraps s
        (s.updateRequest id (WrapStoredRequest.markWrapStage .pullPending .running now)) :=
      .same rfl rfl rfl rfl rfl
    refine (hmarked.trans (.call _ _ _ ?_)).trans (.same rfl rfl rfl rfl rfl)
    intro other
    exact CallOrigin.noConfusion

theorem spares_creditNativeDeposit {recipient : Address} {amountWei : Nat} :
    SparesUnwraps s (s.creditNativeDeposit id recipient amountWei).2 := by
  rw [creditNativeDeposit]
  split
  · exact .same rfl rfl rfl rfl rfl
  · split
    · split
      · exact .same rfl rfl rfl rfl rfl
      · exact .same rfl rfl rfl rfl rfl
    · split
      · exact .same rfl rfl rfl rfl rfl
      · exact .same rfl rfl rfl rfl rfl

theorem spares_depositFinal {flow : DepositFlow} {req : WrapStoredRequest} :
    SparesUnwraps s (s.depositFinal id now flow req) := by
  rw [depositFinal]
  split
  · have hcredited : SparesUnwraps s
        (s.creditNativeDeposit id flow.evmRecipient flow.amountWei).2 := spares_creditNativeDeposit
    exact hcredited.trans (.same rfl rfl rfl rfl rfl)
  · exact .same rfl rfl rfl rfl rfl

theorem spares_depositFromPull {flow : DepositFlow} {req : WrapStoredRequest} :
    SparesUnwraps s (s.depositFromPull env id now flow req) := by
  rw [depositFromPull]
  split
  · refine SparesUnwraps.trans (.call s _ _ ?_) (.same rfl rfl rfl rfl rfl)
    intro other
    exact CallOrigin.noConfusion
  · exact spares_depositFinal

theorem spares_collectFee {caller feeLedger : StoredPrincipal} {fee : Nat}
    {req : WrapStoredRequest} : SparesUnwraps s (s.collectFee env id caller feeLedger fee req) := by
  apply SparesUnwraps.call
  intro other
  exact CallOrigin.noConfusion

theorem spares_submitWrapRequest {gasPrice : Nat} {who : Principal} {args : SubmitWrapRequestArgs}
    (h : submitWrapRequest env now gasPrice who args s = some t) : SparesUnwraps s t := by
  obtain ⟨id, caller, req, feeLedger, fee, -, -, rfl⟩ := submitWrapRequest_some h
  have hreserved : SparesUnwraps s (s.reserve id caller req) := .same rfl rfl rfl rfl rfl
  exact (hreserved.trans spares_collectFee).trans (.same rfl rfl rfl rfl rfl)

theorem spares_submitNativeDeposit {who : Principal} {args : SubmitNativeDepositArgs}
    (h : submitNativeDeposit env now who args s = some t) : SparesUnwraps s t := by
  obtain ⟨id, caller, flow, req, policy, -, -, rfl⟩ := submitNativeDeposit_some h
  have hreserved : SparesUnwraps s (s.reserve id caller req) := .same rfl rfl rfl rfl rfl
  split_ifs
  · exact (hreserved.trans spares_collectFee).trans (.same rfl rfl rfl rfl rfl)
  · exact hreserved.trans spares_depositFromPull

theorem spares_wrapWorkerTick (h : wrapWorkerTick env now s = some t) : SparesUnwraps s t := by
  obtain ⟨⟨id, req, rest⟩, -, h⟩ := Option.bind_eq_some_iff.mp h
  obtain rfl := Option.some.inj h
  have hlaunched : SparesUnwraps s
      { s with wrapQueue := rest, wrapRequests := s.wrapRequests.insert id (req.markRunning now) } :=
    .same rfl rfl rfl rfl rfl
  exact hlaunched.trans spares_executeWrapRequest

theorem spares_submitMintTx {pullLedgerTxId : LedgerTxId} {wrapEvm : Address}
    {tx : IcSyntheticTxInput} :
    SparesUnwraps s (s.submitMintTx env id now pullLedgerTxId wrapEvm tx) := by
  rw [submitMintTx]
  dsimp only
  split
  · exact .same rfl rfl rfl rfl rfl
  · split
    · exact .same rfl rfl rfl rfl rfl
    · exact .same rfl rfl rfl rfl rfl

theorem spares_submitMintTxInternal {factory : Address} {req : WrapStoredRequest}
    {pullLedgerTxId : LedgerTxId} {reply : MintReply} :
    SparesUnwraps s (s.submitMintTxInternal env id now factory req pullLedgerTxId reply) := by
  rw [submitMintTxInternal]
  dsimp only
  split
  · exact .same rfl rfl rfl rfl rfl
  · split
    · exact .same rfl rfl rfl rfl rfl
    · split
      · exact .same rfl rfl rfl rfl rfl
      · refine SparesUnwraps.trans (.same ?_ ?_ ?_ ?_ ?_) spares_submitMintTx
        all_goals rfl

theorem spares_finishPull {req : WrapStoredRequest} {pull : Except String LedgerTxId} :
    SparesUnwraps s (s.finishPull id now req pull) := by
  cases pull with
  | error code => exact .same rfl rfl rfl rfl rfl
  | ok pullLedgerTxId =>
      refine SparesUnwraps.trans (.same ?_ ?_ ?_ ?_ ?_) spares_startMint
      all_goals rfl

theorem spares_finishSubmit {fee : Except String LedgerTxId} :
    SparesUnwraps s (s.finishSubmit id now fee) := by
  cases fee with
  | error code => exact .same rfl rfl rfl rfl rfl
  | ok feeLedgerTxId =>
      rw [finishSubmit, enqueueWrapRequestOnce]
      split
      · exact .same rfl rfl rfl rfl rfl
      · exact .same rfl rfl rfl rfl rfl

theorem spares_finishDepositFee {flow : DepositFlow} {fee : Except String LedgerTxId} :
    SparesUnwraps s (s.finishDepositFee env id now flow fee) := by
  cases fee with
  | error code => exact .same rfl rfl rfl rfl rfl
  | ok feeLedgerTxId =>
      rw [finishDepositFee]
      split
      · exact .same rfl rfl rfl rfl rfl
      · refine SparesUnwraps.trans (.same ?_ ?_ ?_ ?_ ?_) spares_depositFromPull
        all_goals rfl

theorem spares_finishDepositPull {flow : DepositFlow} {pull : Except String LedgerTxId} :
    SparesUnwraps s (s.finishDepositPull id now flow pull) := by
  cases pull with
  | error code => exact .same rfl rfl rfl rfl rfl
  | ok pullLedgerTxId =>
      rw [finishDepositPull]
      split
      · exact .same rfl rfl rfl rfl rfl
      · refine SparesUnwraps.trans (.same ?_ ?_ ?_ ?_ ?_) spares_depositFinal
        all_goals rfl

theorem spares_resumeWrap {i : Nat} {reply : WrapReply}
    (h : resumeWrap env now i reply s = some t) : SparesUnwraps s t := by
  rw [resumeWrap] at h
  split at h
  · exact absurd h (by simp)
  · rename_i id task _
    have hresumed : SparesUnwraps s { s with wrapTasks := s.wrapTasks.eraseIdx i } :=
      .same rfl rfl rfl rfl rfl
    cases task <;> cases reply <;> simp only [resumeWrapTask, reduceCtorEq] at h
    · obtain ⟨fee, -, rfl⟩ := Option.map_eq_some_iff.mp h
      exact hresumed.trans spares_finishSubmit
    · obtain ⟨pull, -, rfl⟩ := Option.map_eq_some_iff.mp h
      exact hresumed.trans spares_finishPull
    · obtain rfl := Option.some.inj h
      exact hresumed.trans spares_submitMintTxInternal
    · obtain ⟨transfer, -, rfl⟩ := Option.map_eq_some_iff.mp h
      exact hresumed.trans (.same rfl rfl rfl rfl rfl)
    · obtain ⟨fee, -, rfl⟩ := Option.map_eq_some_iff.mp h
      exact hresumed.trans spares_finishDepositFee
    · obtain ⟨pull, -, rfl⟩ := Option.map_eq_some_iff.mp h
      exact hresumed.trans spares_finishDepositPull

theorem spares_recoverFailedWrap (h : recoverFailedWrap env now id s = some t) :
    SparesUnwraps s t := by
  simp only [recoverFailedWrap, Option.bind_eq_bind] at h
  obtain ⟨old, -, h⟩ := Option.bind_eq_some_iff.mp h
  obtain ⟨req, -, h⟩ := Option.bind_eq_some_iff.mp h
  obtain rfl := Option.some.inj h
  have hmarked : SparesUnwraps s { s with wrapRequests := s.wrapRequests.insert id req } :=
    .same rfl rfl rfl rfl rfl
  refine (hmarked.trans (.call _ _ _ ?_)).trans (.same rfl rfl rfl rfl rfl)
  intro other
  exact CallOrigin.noConfusion

theorem spares_retryNativeDeposit (h : retryNativeDeposit id s = some t) : SparesUnwraps s t := by
  simp only [retryNativeDeposit, Option.bind_eq_bind] at h
  obtain ⟨old, -, h⟩ := Option.bind_eq_some_iff.mp h
  obtain ⟨req, -, h⟩ := Option.bind_eq_some_iff.mp h
  obtain rfl := Option.some.inj h
  have hrunning : SparesUnwraps s { s with wrapRequests := s.wrapRequests.insert id req } :=
    .same rfl rfl rfl rfl rfl
  cases nativeDepositAmountWei req.amount with
  | error code => exact hrunning.trans (.same rfl rfl rfl rfl rfl)
  | ok amountWei =>
      exact (hrunning.trans spares_creditNativeDeposit).trans (.same rfl rfl rfl rfl rfl)

theorem spares_submitIcTx {caller : Principal} {tx : IcSyntheticTxInput}
    (h : submitIcTx env now caller tx s = some t) : SparesUnwraps s t := by
  rw [submitIcTx] at h
  obtain ⟨-, h⟩ := Option.ite_none_left_eq_some.mp h
  obtain rfl := Option.some.inj h
  exact .same rfl rfl rfl rfl rfl

end GatewayState

end Kasane.Gateway
