import Kasane.Gateway.Lane

namespace Kasane.Gateway

open BigEndian Codec Word Chain Exec
open WrapStoredRequest

variable {T : Type}

namespace GatewayState

def lane (s : GatewayState T) (id : TxId) : Lane where
  record := s.wrapRequests.get id
  queued := s.wrapQueue.count id
  pending := (s.wrapPendingSubmissions.get id).isSome
  tasks := (s.wrapTasks.filter (fun task => decide (task.1 = id))).map Prod.snd
  mints := s.mints.filter (fun mint => decide (mint.requestId = id))
  credits := s.credits.filter (fun credit => decide (credit.requestId = id))
  creditRecord := s.nativeCreditRecords.get id
  pullSent := s.calls.any (fun call => decide (call.origin = .pull id))
  refundSent := s.calls.any (fun call => decide (call.origin = .refund id))

section

variable (s : GatewayState T) (id other : TxId)

@[simp] theorem lane_updateRequest (f : WrapStoredRequest → WrapStoredRequest) :
    (s.updateRequest id f).lane other =
      if other = id then (s.lane other).update f else s.lane other := by
  by_cases h : other = id
  · subst h
    simp [lane, updateRequest, Lane.update]
  · simp [lane, updateRequest, h, OrdMap.get_modify_of_ne s.wrapRequests f h]

@[simp] theorem lane_suspend (task : WrapTask) :
    (s.suspend id task).lane other =
      if other = id then (s.lane other).suspend task else s.lane other := by
  by_cases h : other = id
  · subst h
    simp [lane, suspend, Lane.suspend]
  · simp [lane, suspend, h, Ne.symm h]

@[simp] theorem lane_enqueueWrapRequestOnce :
    (s.enqueueWrapRequestOnce id).lane other =
      if other = id then (s.lane other).enqueueOnce else s.lane other := by
  by_cases h : other = id
  · subst h
    rw [if_pos rfl, enqueueWrapRequestOnce]
    by_cases hmem : other ∈ s.wrapQueue
    · have hpos := List.count_pos_iff.mpr hmem
      rw [if_pos hmem, Lane.enqueueOnce]
      simp only [lane]
      rw [Nat.max_eq_right hpos]
    · have hzero := List.count_eq_zero.mpr hmem
      rw [if_neg hmem]
      simp [lane, Lane.enqueueOnce, hzero]
  · rw [if_neg h, enqueueWrapRequestOnce]
    by_cases hmem : id ∈ s.wrapQueue
    · rw [if_pos hmem]
    · rw [if_neg hmem]
      simp [lane, Ne.symm h]

@[simp] theorem lane_clearWrapPendingSubmission :
    (s.clearWrapPendingSubmission id).lane other =
      if other = id then (s.lane other).release else s.lane other := by
  by_cases h : other = id
  · simp [lane, clearWrapPendingSubmission, h, Lane.release]
  · simp [lane, clearWrapPendingSubmission, h]

@[simp] theorem lane_reserve (caller : StoredPrincipal) (req : WrapStoredRequest) :
    (s.reserve id caller req).lane other =
      if other = id then (s.lane other).reserve req else s.lane other := by
  by_cases h : other = id
  · simp [lane, reserve, h, Lane.reserve]
  · simp [lane, reserve, h]

@[simp] theorem lane_callFee (ledger : Principal) (transfer : DedupLedger.Transfer Principal) :
    (s.call ledger transfer (.fee id)).lane other = s.lane other := by
  simp [lane, call]

@[simp] theorem lane_callPull (ledger : Principal) (transfer : DedupLedger.Transfer Principal) :
    (s.call ledger transfer (.pull id)).lane other =
      if other = id then (s.lane other).sendPull else s.lane other := by
  by_cases h : other = id
  · simp [lane, call, h, Lane.sendPull]
  · simp [lane, call, h, Ne.symm h]

@[simp] theorem lane_callRefund (ledger : Principal) (transfer : DedupLedger.Transfer Principal) :
    (s.call ledger transfer (.refund id)).lane other =
      if other = id then (s.lane other).sendRefund else s.lane other := by
  by_cases h : other = id
  · simp [lane, call, h, Lane.sendRefund]
  · simp [lane, call, h, Ne.symm h]

@[simp] theorem lane_callPayout (ledger : Principal) (transfer : DedupLedger.Transfer Principal) :
    (s.call ledger transfer (.payout id)).lane other = s.lane other := by
  simp [lane, call]

@[simp] theorem lane_insertRequest (req : WrapStoredRequest) :
    ({ s with wrapRequests := s.wrapRequests.insert id req } : GatewayState T).lane other =
      if other = id then { s.lane other with record := some req } else s.lane other := by
  by_cases h : other = id
  · simp [lane, h]
  · simp [lane, h]

@[simp] theorem lane_withChain (chain : StableState (World T)) :
    ({ s with chain := chain } : GatewayState T).lane other = s.lane other := rfl

theorem lane_finishWrap (now : Nat) (outcome : WrapExecutionOutcome) :
    (s.finishWrap id now outcome).lane other =
      if other = id then (s.lane other).finish now outcome else s.lane other :=
  lane_updateRequest s id other _

theorem lane_recordMint (now : Nat) (pullLedgerTxId : LedgerTxId) (txId : TxId) (accepted : Bool) :
    (s.recordMint id now pullLedgerTxId txId accepted).lane other =
      if other = id then (s.lane other).minted id now pullLedgerTxId txId accepted
      else s.lane other := by
  have hrecord := lane_finishWrap (s.updateRequest id (recordWrapMintSubmitted txId now)) id other now
    (wrapMinted pullLedgerTxId txId)
  by_cases h : other = id
  · subst h
    rw [if_pos rfl, lane_updateRequest, if_pos rfl] at hrecord
    rw [if_pos rfl, Lane.minted, ← hrecord]
    simp [recordMint, lane, finishWrap, updateRequest]
  · rw [if_neg h, lane_updateRequest, if_neg h] at hrecord
    rw [if_neg h, ← hrecord]
    simp [recordMint, lane, finishWrap, updateRequest, Ne.symm h]

end

section

variable {s : GatewayState T} {id other : TxId}

theorem eraseIdx_split {α : Type} {l : List α} {i : Nat} {x : α} (h : l[i]? = some x) :
    ∃ before after, l = before ++ x :: after ∧ l.eraseIdx i = before ++ after := by
  obtain ⟨hi, hx⟩ := List.getElem?_eq_some_iff.mp h
  refine ⟨l.take i, l.drop (i + 1), ?_, List.eraseIdx_eq_take_drop_succ l i⟩
  rw [← hx, ← List.drop_eq_getElem_cons hi, List.take_append_drop]

theorem lane_resumes {i : Nat} {task : WrapTask} (h : s.wrapTasks[i]? = some (id, task)) :
    Lane.Resumes task (s.lane id)
      (({ s with wrapTasks := s.wrapTasks.eraseIdx i } : GatewayState T).lane id) := by
  obtain ⟨before, after, hsplit, herase⟩ := eraseIdx_split h
  refine ⟨(before.filter (fun task => decide (task.1 = id))).map Prod.snd,
    (after.filter (fun task => decide (task.1 = id))).map Prod.snd, ?_, ?_⟩
  · simp [lane, hsplit]
  · simp [lane, herase]

theorem lane_eraseTask {i : Nat} {task : WrapTask} (h : s.wrapTasks[i]? = some (id, task))
    (hne : other ≠ id) :
    ({ s with wrapTasks := s.wrapTasks.eraseIdx i } : GatewayState T).lane other = s.lane other := by
  obtain ⟨before, after, hsplit, herase⟩ := eraseIdx_split h
  simp only [lane]
  rw [herase, hsplit]
  simp [Ne.symm hne]

theorem lane_startMint {now : Nat} {req : WrapStoredRequest} {pullLedgerTxId : LedgerTxId} :
    Lane.StartsMint now req pullLedgerTxId (s.lane id)
      ((s.startMint id now req pullLedgerTxId).lane id) := by
  rw [startMint]
  cases hmint : req.result.mintTxId with
  | some txId =>
      dsimp only
      rw [lane_finishWrap, if_pos rfl]
      exact .known hmint
  | none =>
      cases hfactory : s.wrapFactoryAddress with
      | none =>
          dsimp only
          rw [lane_finishWrap, if_pos rfl]
          exact .unconfigured hmint _
      | some factory =>
          dsimp only
          rw [lane_suspend, if_pos rfl]
          exact .decimals hmint factory

theorem lane_startMint_of_ne {now : Nat} {req : WrapStoredRequest} {pullLedgerTxId : LedgerTxId}
    (hne : other ≠ id) : (s.startMint id now req pullLedgerTxId).lane other = s.lane other := by
  rw [startMint]
  cases req.result.mintTxId with
  | some txId =>
      dsimp only
      rw [lane_finishWrap, if_neg hne]
  | none =>
      cases s.wrapFactoryAddress with
      | none =>
          dsimp only
          rw [lane_finishWrap, if_neg hne]
      | some factory =>
          dsimp only
          rw [lane_suspend, if_neg hne]

theorem lane_executeWrapRequest {env : Env T} {now : Nat} {req : WrapStoredRequest} :
    Lane.Executes now req (s.lane id) ((s.executeWrapRequest env id now req).lane id) := by
  rw [executeWrapRequest]
  cases hpull : req.result.pullLedgerTxId with
  | some pullLedgerTxId => exact .mints hpull lane_startMint
  | none =>
      have hlane : (s.startPull env id now req).lane id =
          (((s.lane id).update (markWrapStage .pullPending .running now)).sendPull).suspend
            (.pull s.calls.length req) := by
        simp only [startPull, lane_suspend, lane_callPull, lane_updateRequest, if_pos]
        rfl
      dsimp only
      rw [hlane]
      exact .pulls hpull _

theorem lane_executeWrapRequest_of_ne {env : Env T} {now : Nat} {req : WrapStoredRequest}
    (hne : other ≠ id) : (s.executeWrapRequest env id now req).lane other = s.lane other := by
  rw [executeWrapRequest]
  cases req.result.pullLedgerTxId with
  | some pullLedgerTxId => exact lane_startMint_of_ne hne
  | none => simp [startPull, hne]

theorem openWrapRequest_opens {args : NormalizedSubmitWrapRequest} {caller : StoredPrincipal}
    {quote : QuoteWrapRequestOk} {now : Nat} {req : WrapStoredRequest} (hgas : args.gasLimit ≠ 0)
    (h : openWrapRequest s args caller quote now = some req) :
    OpensWrap (s.lane args.requestId).record now req := by
  change OpensWrap (s.wrapRequests.get args.requestId) now req
  rw [openWrapRequest] at h
  cases hget : s.wrapRequests.get args.requestId with
  | none =>
      rw [hget] at h
      obtain rfl := Option.some.inj h
      exact ⟨hgas, rfl, Or.inr ⟨rfl, args, caller, quote, rfl⟩⟩
  | some existing =>
      rw [hget] at h
      dsimp only at h
      split_ifs at h with hmatch hfee
      obtain rfl := Option.some.inj h
      have hmatch' : idempotencyMatches args caller existing = true := by simpa using hmatch
      rw [idempotencyMatches, decide_eq_true_eq] at hmatch'
      refine ⟨?_, by simpa using hfee, Or.inl rfl⟩
      rw [hmatch'.2.2.2.2.1]
      exact hgas

theorem submitWrapRequest_some {env : Env T} {now gasPrice : Nat} {who : Principal}
    {args : SubmitWrapRequestArgs} {t : GatewayState T}
    (h : submitWrapRequest env now gasPrice who args s = some t) :
    ∃ id caller req feeLedger fee, OpensWrap (s.lane id).record now req ∧
      (s.lane id).pending = false ∧
        t = ((s.reserve id caller req).collectFee env id caller feeLedger fee req).suspend id
          (.submitFee (s.reserve id caller req).calls.length) := by
  simp only [submitWrapRequest, Option.bind_eq_bind, Option.bind_none] at h
  obtain ⟨-, h⟩ := Option.ite_none_left_eq_some.mp h
  obtain ⟨caller, hcaller, h⟩ := Option.bind_eq_some_iff.mp h
  obtain ⟨args', hargs, h⟩ := Option.bind_eq_some_iff.mp h
  obtain ⟨-, h⟩ := Option.ite_none_left_eq_some.mp h
  obtain ⟨quote, hquote, h⟩ := Option.bind_eq_some_iff.mp h
  obtain ⟨-, h⟩ := Option.ite_none_left_eq_some.mp h
  obtain ⟨req, hreq, h⟩ := Option.bind_eq_some_iff.mp h
  obtain ⟨hpending, h⟩ := Option.ite_none_left_eq_some.mp h
  have hgas : args'.gasLimit ≠ 0 := by
    intro hzero
    rw [quoteWrapRequestInner, if_pos (by simp [validWrapGasLimit, hzero])] at hquote
    exact absurd hquote (by simp)
  exact ⟨args'.requestId, caller, req, _, _, openWrapRequest_opens hgas hreq,
    by simpa [lane] using hpending, (Option.some.inj h).symm⟩

theorem lane_finishSubmit_of_ne {now : Nat} {fee : Except String LedgerTxId} (hne : other ≠ id) :
    (s.finishSubmit id now fee).lane other = s.lane other := by
  cases fee <;> simp [finishSubmit, hne]

theorem lane_finishPull_of_ne {now : Nat} {req : WrapStoredRequest} {pull : Except String LedgerTxId}
    (hne : other ≠ id) : (s.finishPull id now req pull).lane other = s.lane other := by
  cases pull with
  | error code => exact (lane_finishWrap ..).trans (if_neg hne)
  | ok pullLedgerTxId =>
      rw [finishPull.eq_2, lane_startMint_of_ne hne, lane_updateRequest, if_neg hne]

theorem dequeueWrapRequest_some {requests : OrdMap TxId WrapStoredRequest} {queue rest : List TxId}
    {req : WrapStoredRequest} (h : dequeueWrapRequest requests queue = some (id, req, rest)) :
    requests.get id = some req ∧ queue.count id = rest.count id + 1 ∧ rest <:+ queue ∧
      ∀ j ≠ id, requests.get j ≠ none → queue.count j = rest.count j := by
  induction queue with
  | nil => exact absurd h (by simp [dequeueWrapRequest])
  | cons head queue ih =>
      rw [dequeueWrapRequest] at h
      cases hget : requests.get head with
      | some found =>
          rw [hget] at h
          obtain ⟨rfl, hrest⟩ := Prod.mk.inj (Option.some.inj h)
          obtain ⟨rfl, rfl⟩ := Prod.mk.inj hrest
          refine ⟨hget, List.count_cons_self, List.suffix_cons _ _, ?_⟩
          intro j hj _
          exact List.count_cons_of_ne (Ne.symm hj)
      | none =>
          rw [hget] at h
          obtain ⟨hfound, hcount, hsuffix, hothers⟩ := ih h
          have hhead {j : TxId} (hj : requests.get j ≠ none) : head ≠ j := by
            rintro rfl
            exact hj hget
          refine ⟨hfound, ?_, hsuffix.trans (List.suffix_cons _ _), ?_⟩
          · rw [List.count_cons_of_ne (hhead (by rw [hfound]; simp)), hcount]
          · intro j hj hknown
            rw [List.count_cons_of_ne (hhead hknown), hothers j hj hknown]

theorem wrapWorkerTick_step {env : Env T} {now : Nat} {c c' : StableState (World T)}
    {t : GatewayState T} (h : wrapWorkerTick env now s = some t) (R : TxId) :
    LaneStep env R c c' (.wrapWorkerTick now) (s.lane R) (t.lane R) := by
  simp only [wrapWorkerTick, Option.bind_eq_bind] at h
  obtain ⟨⟨id, req, rest⟩, hdequeue, h⟩ := Option.bind_eq_some_iff.mp h
  obtain rfl := Option.some.inj h
  obtain ⟨hfound, hcount, hsuffix, hothers⟩ := dequeueWrapRequest_some hdequeue
  by_cases hR : R = id
  · subst hR
    have hqueued : 0 < (s.lane R).queued := by
      change 0 < s.wrapQueue.count R
      omega
    refine .launch hfound hqueued ?_
    have hlane : ({ s with
        wrapQueue := rest
        wrapRequests := s.wrapRequests.insert R (req.markRunning now) } : GatewayState T).lane R =
        { s.lane R with
          queued := (s.lane R).queued - 1
          record := some (req.markRunning now) } := by
      simp [lane, hcount]
    rw [← hlane]
    exact lane_executeWrapRequest
  · rw [lane_executeWrapRequest_of_ne hR]
    have hlane : ({ s with
        wrapQueue := rest
        wrapRequests := s.wrapRequests.insert id (req.markRunning now) } : GatewayState T).lane R =
        { s.lane R with queued := rest.count R } := by
      simp [lane, hR]
    rw [hlane]
    cases hknown : s.wrapRequests.get R with
    | none => exact .forget hknown (hsuffix.sublist.count_le R)
    | some found =>
        have hsame := hothers R hR (by rw [hknown]; simp)
        rw [← hsame]
        exact .other

theorem submitMintTx_submits {env : Env T} {now : Nat} {factory : Address} {req : WrapStoredRequest}
    {pullLedgerTxId : LedgerTxId} {l : Lane} {wrapEvm : Address} {tx : IcSyntheticTxInput}
    (hbuilt : ∃ tokenDecimals suggested, tx = mintTx env.crypto factory req tokenDecimals
      (Lane.mintNonce env s.chain req wrapEvm) suggested)
    (hderived : env.crypto.deriveEvmAddress env.canisterSelf.bytes = some wrapEvm)
    (hlane : s.lane id =
      l.update (recordWrapMintSubmitting (Lane.mintNonce env s.chain req wrapEvm) now)) :
    Lane.SubmitsMint env id now factory req pullLedgerTxId s.chain l
      (s.submitMintTx env id now pullLedgerTxId wrapEvm tx).chain
      ((s.submitMintTx env id now pullLedgerTxId wrapEvm tx).lane id) := by
  rw [submitMintTx]
  rcases hsubmit : submitIcTxInput env.crypto (evm env.crypto env.revm env.trie) (now / nanosPerSec)
    env.canisterSelf.principal env.canisterSelf.principal tx s.chain with ⟨result, chain⟩
  have hsent : Lane.MintSent env s.chain chain now factory req
      (Lane.mintNonce env s.chain req wrapEvm) result tx wrapEvm :=
    ⟨hbuilt, hderived, hsubmit⟩
  cases result with
  | ok txId =>
      dsimp only
      rw [lane_recordMint, if_pos rfl, lane_withChain, hlane]
      exact .accepted hsent
  | error e =>
      dsimp only
      split_ifs with hseen
      · rw [lane_recordMint, if_pos rfl, lane_withChain, hlane]
        exact .duplicate hsent hseen.1 hseen.2
      · rw [lane_finishWrap, if_pos rfl, lane_withChain, hlane]
        exact .rejected hsent _

theorem submitMintTxInternal_submits {env : Env T} {now : Nat} {factory : Address}
    {req : WrapStoredRequest} {pullLedgerTxId : LedgerTxId} {reply : MintReply} :
    Lane.SubmitsMint env id now factory req pullLedgerTxId s.chain (s.lane id)
      (s.submitMintTxInternal env id now factory req pullLedgerTxId reply).chain
      ((s.submitMintTxInternal env id now factory req pullLedgerTxId reply).lane id) := by
  have hfailed (u : GatewayState T) (code : String) :
      (u.finishWrap id now (wrapFailed (some pullLedgerTxId) code true)).lane id =
        (u.lane id).finish now (wrapFailed (some pullLedgerTxId) code true) :=
    (lane_finishWrap ..).trans (if_pos rfl)
  have hsubmitting (nonce : UInt64) : (s.updateRequest id (recordWrapMintSubmitting nonce now)).lane id =
      (s.lane id).update (recordWrapMintSubmitting nonce now) :=
    (lane_updateRequest ..).trans (if_pos rfl)
  rw [submitMintTxInternal]
  cases reply.tokenDecimals with
  | error code =>
      dsimp only
      rw [hfailed]
      exact .stopped code
  | ok tokenDecimals =>
      cases hderive : env.crypto.deriveEvmAddress env.canisterSelf.bytes with
      | none =>
          dsimp only
          rw [hfailed]
          exact .stopped _
      | some wrapEvm =>
          cases reply.suggestedPriorityFeeWei with
          | error code =>
              dsimp only
              rw [hfailed, hsubmitting]
              exact .unpriced _ _
          | ok suggested =>
              exact submitMintTx_submits (s := s.updateRequest id _) ⟨tokenDecimals, suggested, rfl⟩
                hderive (hsubmitting _)

theorem lane_submitMintTx_of_ne {env : Env T} {now : Nat} {pullLedgerTxId : LedgerTxId}
    {wrapEvm : Address} {tx : IcSyntheticTxInput} (hne : other ≠ id) :
    (s.submitMintTx env id now pullLedgerTxId wrapEvm tx).lane other = s.lane other := by
  rw [submitMintTx]
  rcases submitIcTxInput env.crypto (evm env.crypto env.revm env.trie) (now / nanosPerSec)
    env.canisterSelf.principal env.canisterSelf.principal tx s.chain with ⟨_ | _, chain⟩
  · dsimp only
    split_ifs
    · rw [lane_recordMint, if_neg hne, lane_withChain]
    · rw [lane_finishWrap, if_neg hne, lane_withChain]
  · dsimp only
    rw [lane_recordMint, if_neg hne, lane_withChain]

theorem lane_submitMintTxInternal_of_ne {env : Env T} {now : Nat} {factory : Address}
    {req : WrapStoredRequest} {pullLedgerTxId : LedgerTxId} {reply : MintReply} (hne : other ≠ id) :
    (s.submitMintTxInternal env id now factory req pullLedgerTxId reply).lane other =
      s.lane other := by
  rw [submitMintTxInternal]
  cases reply.tokenDecimals with
  | error code => exact (lane_finishWrap ..).trans (if_neg hne)
  | ok tokenDecimals =>
      cases env.crypto.deriveEvmAddress env.canisterSelf.bytes with
      | none => exact (lane_finishWrap ..).trans (if_neg hne)
      | some wrapEvm =>
          cases reply.suggestedPriorityFeeWei with
          | error code =>
              dsimp only
              rw [lane_finishWrap, if_neg hne, lane_updateRequest, if_neg hne]
          | ok suggested =>
              dsimp only
              rw [lane_submitMintTx_of_ne hne, lane_updateRequest, if_neg hne]

theorem lane_creditNativeDeposit {recipient : Address} {amountWei : Nat} :
    Lane.CreditsNative id recipient amountWei (s.lane id)
      (s.creditNativeDeposit id recipient amountWei).1
      ((s.creditNativeDeposit id recipient amountWei).2.lane id) := by
  rw [creditNativeDeposit]
  split_ifs with hrange
  · exact .refused _
  · cases hrecord : s.nativeCreditRecords.get id with
    | some existing =>
        dsimp only
        split_ifs with hsame
        · exact .known (hsame ▸ hrecord)
        · exact .refused _
    | none =>
        dsimp only
        cases creditAccount s.chain.world.db recipient amountWei with
        | none => exact .refused _
        | some db =>
            dsimp only
            rw [show ({ s with
              chain := { s.chain with world := { s.chain.world with db := db } }
              nativeCreditRecords := s.nativeCreditRecords.insert id ⟨recipient, amountWei⟩
              credits := s.credits ++ [⟨id, recipient, amountWei,
                (s.wrapRequests.get id).bind (fun req => req.result.pullLedgerTxId)⟩] } :
                  GatewayState T).lane id = (s.lane id).credited id recipient amountWei by
              simp [lane, Lane.credited]]
            exact .credited hrecord

theorem lane_creditNativeDeposit_of_ne {recipient : Address} {amountWei : Nat} (hne : other ≠ id) :
    (s.creditNativeDeposit id recipient amountWei).2.lane other = s.lane other := by
  rw [creditNativeDeposit]
  split_ifs
  · rfl
  · cases s.nativeCreditRecords.get id with
    | some existing =>
        dsimp only
        split_ifs <;> rfl
    | none =>
        cases creditAccount s.chain.world.db recipient amountWei with
        | none => rfl
        | some db => simp [lane, hne, Ne.symm hne]

theorem lane_depositFinal {now : Nat} {flow : DepositFlow} {req : WrapStoredRequest} :
    Lane.Finalizes id now flow req (s.lane id) ((s.depositFinal id now flow req).lane id) := by
  rw [depositFinal, lane_clearWrapPendingSubmission, if_pos rfl]
  split_ifs with hopen
  · rw [finalizeNativeDepositCredit, lane_updateRequest, if_pos rfl]
    exact .credits lane_creditNativeDeposit
  · rw [not_or, not_not] at hopen
    exact .done hopen

theorem lane_depositFinal_of_ne {now : Nat} {flow : DepositFlow} {req : WrapStoredRequest}
    (hne : other ≠ id) : (s.depositFinal id now flow req).lane other = s.lane other := by
  rw [depositFinal, lane_clearWrapPendingSubmission, if_neg hne]
  split_ifs
  · rw [finalizeNativeDepositCredit, lane_updateRequest, if_neg hne,
      lane_creditNativeDeposit_of_ne hne]
  · rfl

theorem lane_depositFromPull {env : Env T} {now : Nat} {flow : DepositFlow}
    {req : WrapStoredRequest} :
    Lane.Deposits id now flow req (s.lane id) ((s.depositFromPull env id now flow req).lane id) := by
  rw [depositFromPull]
  split_ifs with hpull
  · rw [lane_suspend, if_pos rfl, lane_callPull, if_pos rfl]
    exact .pulls hpull _
  · exact .finalizes hpull lane_depositFinal

theorem lane_depositFromPull_of_ne {env : Env T} {now : Nat} {flow : DepositFlow}
    {req : WrapStoredRequest} (hne : other ≠ id) :
    (s.depositFromPull env id now flow req).lane other = s.lane other := by
  rw [depositFromPull]
  split_ifs with hpull
  · rw [lane_suspend, if_neg hne, lane_callPull, if_neg hne]
  · exact lane_depositFinal_of_ne hne

theorem openNativeDeposit_opens {env : Env T} {owner depositId : Bytes} {flow : DepositFlow}
    {policy : FeePolicy} {maxFeeE8s : BitVec 128} {now : Nat} {req : WrapStoredRequest}
    (hid : id = deriveNativeDepositRequestId env.crypto owner depositId)
    (hwei : flow.amountWei = flow.amount * weiPerE8s)
    (h : openNativeDeposit s id flow policy maxFeeE8s now = some req) :
    OpensDeposit env id (s.lane id).record now flow req := by
  refine ⟨⟨owner, depositId, hid⟩, hwei, ?_⟩
  change (s.wrapRequests.get id = some req ∧ _) ∨ (s.wrapRequests.get id = none ∧ _)
  rw [openNativeDeposit] at h
  cases hget : s.wrapRequests.get id with
  | none =>
      rw [hget] at h
      obtain rfl := Option.some.inj h
      exact Or.inr ⟨rfl, policy, maxFeeE8s, rfl⟩
  | some existing =>
      rw [hget] at h
      dsimp only at h
      split_ifs at h with hmatch hanswered
      obtain rfl := Option.some.inj h
      exact Or.inl ⟨rfl, by simpa using hmatch, by simpa using hanswered⟩

theorem ok_of_toOption {ε α : Type} {result : Except ε α} {a : α}
    (h : result.toOption = some a) : result = .ok a := by
  cases result with
  | error e => exact absurd h (by simp [Except.toOption])
  | ok b => rw [Option.some.inj h]

theorem nativeDepositAmountWei_ok {amount amountWei : Nat}
    (h : nativeDepositAmountWei amount = .ok amountWei) : amountWei = amount * weiPerE8s := by
  rw [nativeDepositAmountWei] at h
  split_ifs at h
  exact (Except.ok.inj h).symm

theorem submitNativeDeposit_some {env : Env T} {now : Nat} {who : Principal}
    {args : SubmitNativeDepositArgs} {t : GatewayState T}
    (h : submitNativeDeposit env now who args s = some t) :
    ∃ id caller flow req, ∃ policy : FeePolicy, OpensDeposit env id (s.lane id).record now flow req ∧
      (s.lane id).pending = false ∧
        t = if req.result.feeLedgerTxId = none then
          ((s.reserve id caller req).collectFee env id caller policy.feeLedgerCanister
            policy.cycleFeeE8s.toNat req).suspend id
              (.depositFee (s.reserve id caller req).calls.length flow)
        else (s.reserve id caller req).depositFromPull env id now flow req := by
  simp only [submitNativeDeposit, Option.bind_eq_bind, Option.bind_none] at h
  obtain ⟨-, h⟩ := Option.ite_none_left_eq_some.mp h
  obtain ⟨caller, hcaller, h⟩ := Option.bind_eq_some_iff.mp h
  obtain ⟨-, h⟩ := Option.ite_none_left_eq_some.mp h
  obtain ⟨amountWei, hwei, h⟩ := Option.bind_eq_some_iff.mp h
  obtain ⟨policy, hpolicy, h⟩ := Option.bind_eq_some_iff.mp h
  obtain ⟨nativeLedger, hledger, h⟩ := Option.bind_eq_some_iff.mp h
  obtain ⟨-, h⟩ := Option.ite_none_left_eq_some.mp h
  obtain ⟨-, h⟩ := Option.ite_none_left_eq_some.mp h
  obtain ⟨req, hreq, h⟩ := Option.bind_eq_some_iff.mp h
  obtain ⟨hpending, h⟩ := Option.ite_none_left_eq_some.mp h
  exact ⟨_, caller, _, req, policy,
    openNativeDeposit_opens rfl (nativeDepositAmountWei_ok (ok_of_toOption hwei)) hreq,
    by simpa [lane] using hpending, (Option.some.inj h).symm⟩

theorem submitWrapRequest_step {env : Env T} {now gasPrice : Nat} {who : Principal}
    {args : SubmitWrapRequestArgs} {c c' : StableState (World T)} {t : GatewayState T}
    (h : submitWrapRequest env now gasPrice who args s = some t) (R : TxId) :
    LaneStep env R c c' (.submitWrapRequest now gasPrice who args) (s.lane R) (t.lane R) := by
  obtain ⟨id, caller, req, feeLedger, fee, hopens, hfree, rfl⟩ := submitWrapRequest_some h
  rw [lane_suspend, collectFee, lane_callFee, lane_reserve]
  by_cases hR : R = id
  · subst hR
    rw [if_pos rfl, if_pos rfl]
    exact .submit hfree hopens
  · rw [if_neg hR, if_neg hR]
    exact .other

theorem submitNativeDeposit_step {env : Env T} {now : Nat} {who : Principal}
    {args : SubmitNativeDepositArgs} {c c' : StableState (World T)} {t : GatewayState T}
    (h : submitNativeDeposit env now who args s = some t) (R : TxId) :
    LaneStep env R c c' (.submitNativeDeposit now who args) (s.lane R) (t.lane R) := by
  obtain ⟨id, caller, flow, req, policy, hopens, hfree, rfl⟩ := submitNativeDeposit_some h
  by_cases hR : R = id
  · subst hR
    have hlane := (lane_reserve s R R caller req).trans (if_pos rfl)
    split_ifs with hfee
    · rw [lane_suspend, if_pos rfl, collectFee, lane_callFee, hlane]
      exact .depositFee hfree hopens hfee
    · refine .depositAgain hfree hopens hfee ?_
      rw [← hlane]
      exact lane_depositFromPull
  · have hlane := (lane_reserve s id R caller req).trans (if_neg hR)
    split_ifs with hfee
    · rw [lane_suspend, if_neg hR, collectFee, lane_callFee, hlane]
      exact .other
    · rw [lane_depositFromPull_of_ne hR, hlane]
      exact .other

theorem recoverFailedWrap_step {env : Env T} {now : Nat} {c c' : StableState (World T)}
    {t : GatewayState T} (h : recoverFailedWrap env now id s = some t) (R : TxId) :
    LaneStep env R c c' (.recoverFailedWrap now id) (s.lane R) (t.lane R) := by
  simp only [recoverFailedWrap, Option.bind_eq_bind] at h
  obtain ⟨old, hold, h⟩ := Option.bind_eq_some_iff.mp h
  obtain ⟨req, hreq, h⟩ := Option.bind_eq_some_iff.mp h
  obtain rfl := Option.some.inj h
  rw [lane_suspend, lane_callRefund, lane_insertRequest]
  by_cases hR : R = id
  · subst hR
    rw [if_pos rfl, if_pos rfl, if_pos rfl]
    exact .recover hold (ok_of_toOption hreq)
  · rw [if_neg hR, if_neg hR, if_neg hR]
    exact .other

theorem retryNativeDeposit_step {env : Env T} {now : Nat} {c c' : StableState (World T)}
    {t : GatewayState T} (h : retryNativeDeposit id s = some t) (R : TxId) :
    LaneStep env R c c' (.retryNativeDeposit now id) (s.lane R) (t.lane R) := by
  simp only [retryNativeDeposit, Option.bind_eq_bind] at h
  obtain ⟨old, hold, h⟩ := Option.bind_eq_some_iff.mp h
  obtain ⟨req, hreq, h⟩ := Option.bind_eq_some_iff.mp h
  obtain rfl := Option.some.inj h
  rw [lane_updateRequest]
  by_cases hR : R = id
  · subst hR
    rw [if_pos rfl]
    have hallowed : old.retryNativeDeposit = .ok req := ok_of_toOption hreq
    have hlane := (lane_insertRequest s R R req).trans (if_pos rfl)
    cases hwei : nativeDepositAmountWei req.amount with
    | error code =>
        dsimp only
        rw [hlane]
        exact .retryRefused code hold hallowed
    | ok amountWei =>
        dsimp only
        refine .retry hold hallowed hwei ?_
        rw [← hlane]
        exact lane_creditNativeDeposit
  · rw [if_neg hR]
    have hlane := (lane_insertRequest s id R req).trans (if_neg hR)
    cases nativeDepositAmountWei req.amount with
    | error code =>
        dsimp only
        rw [hlane]
        exact .other
    | ok amountWei =>
        dsimp only
        rw [lane_creditNativeDeposit_of_ne hR, hlane]
        exact .other

theorem finishSubmit_step {env : Env T} {now i call : Nat} {reply : WrapReply}
    {c c' : StableState (World T)} {l : Lane} {fee : Except String LedgerTxId}
    (h : Lane.Resumes (.submitFee call) l (s.lane id)) :
    LaneStep env id c c' (.resumeWrap now i reply) l ((s.finishSubmit id now fee).lane id) := by
  cases fee with
  | error code =>
      rw [finishSubmit.eq_1, lane_clearWrapPendingSubmission, if_pos rfl, lane_updateRequest,
        if_pos rfl]
      exact .unpaid _ h
  | ok feeLedgerTxId =>
      rw [finishSubmit.eq_2, lane_clearWrapPendingSubmission, if_pos rfl,
        lane_enqueueWrapRequestOnce, if_pos rfl, lane_updateRequest, if_pos rfl]
      exact .paid feeLedgerTxId h

theorem finishPull_step {env : Env T} {now i call : Nat} {reply : WrapReply}
    {c c' : StableState (World T)} {l : Lane} {req : WrapStoredRequest}
    {pull : Except String LedgerTxId} (h : Lane.Resumes (.pull call req) l (s.lane id)) :
    LaneStep env id c c' (.resumeWrap now i reply) l ((s.finishPull id now req pull).lane id) := by
  cases pull with
  | error code =>
      rw [finishPull.eq_1, lane_finishWrap, if_pos rfl]
      exact .unpulled _ h
  | ok pullLedgerTxId =>
      have hpulled := (lane_updateRequest s id id (recordWrapPullSuccess pullLedgerTxId now)).trans
        (if_pos rfl)
      have hstarts : Lane.StartsMint now req pullLedgerTxId
          ((s.lane id).update (recordWrapPullSuccess pullLedgerTxId now))
          ((s.finishPull id now req (.ok pullLedgerTxId)).lane id) := by
        rw [← hpulled]
        exact lane_startMint
      exact .pulled h hstarts

theorem submitMintTxInternal_step {env : Env T} {now i : Nat} {reply : WrapReply} {factory : Address}
    {l : Lane} {req : WrapStoredRequest} {pullLedgerTxId : LedgerTxId} {mintReply : MintReply}
    (h : Lane.Resumes (.decimals factory req pullLedgerTxId) l (s.lane id)) :
    LaneStep env id s.chain
      (s.submitMintTxInternal env id now factory req pullLedgerTxId mintReply).chain
      (.resumeWrap now i reply) l
      ((s.submitMintTxInternal env id now factory req pullLedgerTxId mintReply).lane id) :=
  .mint h submitMintTxInternal_submits

theorem lane_failDeposit {now : Nat} {code : String} :
    (s.failDeposit id now code).lane other =
      if other = id then (s.lane other).failDeposit now code else s.lane other := by
  rw [failDeposit, lane_clearWrapPendingSubmission, lane_updateRequest]
  split_ifs <;> rfl

theorem lane_finishDepositFee_of_ne {env : Env T} {now : Nat} {flow : DepositFlow}
    {fee : Except String LedgerTxId} (hne : other ≠ id) :
    (s.finishDepositFee env id now flow fee).lane other = s.lane other := by
  cases fee with
  | error code => exact lane_failDeposit.trans (if_neg hne)
  | ok feeLedgerTxId =>
      have hrecorded := (lane_updateRequest s id other
        (recordNativeDepositFeeCollected feeLedgerTxId now)).trans (if_neg hne)
      rw [finishDepositFee.eq_2]
      cases (s.updateRequest id (recordNativeDepositFeeCollected feeLedgerTxId now)).wrapRequests.get
        id with
      | none => exact hrecorded
      | some req => exact (lane_depositFromPull_of_ne hne).trans hrecorded

theorem lane_finishDepositPull_of_ne {now : Nat} {flow : DepositFlow}
    {pull : Except String LedgerTxId} (hne : other ≠ id) :
    (s.finishDepositPull id now flow pull).lane other = s.lane other := by
  cases pull with
  | error code => exact lane_failDeposit.trans (if_neg hne)
  | ok pullLedgerTxId =>
      have hrecorded := (lane_updateRequest s id other
        (recordNativeDepositPulled pullLedgerTxId now)).trans (if_neg hne)
      rw [finishDepositPull.eq_2]
      cases (s.updateRequest id (recordNativeDepositPulled pullLedgerTxId now)).wrapRequests.get
        id with
      | none => exact hrecorded
      | some req => exact (lane_depositFinal_of_ne hne).trans hrecorded

theorem record_none_of_update {f : WrapStoredRequest → WrapStoredRequest}
    (h : (s.updateRequest id f).wrapRequests.get id = none) : (s.lane id).record = none := by
  change (s.wrapRequests.modify id f).get id = none at h
  rw [OrdMap.get_modify_self] at h
  exact Option.map_eq_none_iff.mp h

theorem update_of_record_none {f : WrapStoredRequest → WrapStoredRequest}
    (h : (s.lane id).record = none) : (s.lane id).update f = s.lane id := by
  rw [Lane.update, h, Option.map_none, ← h]

theorem finishDepositFee_step {env : Env T} {now i call : Nat} {reply : WrapReply}
    {c c' : StableState (World T)} {l : Lane} {flow : DepositFlow} {fee : Except String LedgerTxId}
    (h : Lane.Resumes (.depositFee call flow) l (s.lane id)) :
    LaneStep env id c c' (.resumeWrap now i reply) l
      ((s.finishDepositFee env id now flow fee).lane id) := by
  cases fee with
  | error code =>
      rw [finishDepositFee.eq_1, lane_failDeposit, if_pos rfl]
      exact .depositUnpaid _ h
  | ok feeLedgerTxId =>
      have hrecorded := (lane_updateRequest s id id
        (recordNativeDepositFeeCollected feeLedgerTxId now)).trans (if_pos rfl)
      rw [finishDepositFee.eq_2]
      cases hget : (s.updateRequest id
        (recordNativeDepositFeeCollected feeLedgerTxId now)).wrapRequests.get id with
      | none =>
          have hnone := record_none_of_update hget
          dsimp only
          rw [hrecorded, update_of_record_none hnone]
          obtain ⟨before, after, htasks, hlane⟩ := h
          exact .depositLost (Or.inl rfl) (by rw [hlane] at hnone; exact hnone)
            ⟨before, after, htasks, hlane⟩
      | some req =>
          have hfound : ((s.lane id).update
              (recordNativeDepositFeeCollected feeLedgerTxId now)).record = some req := by
            rw [← hrecorded]
            exact hget
          refine .depositPaid h hfound ?_
          rw [← hrecorded]
          exact lane_depositFromPull

theorem finishDepositPull_step {env : Env T} {now i call : Nat} {reply : WrapReply}
    {c c' : StableState (World T)} {l : Lane} {flow : DepositFlow} {pull : Except String LedgerTxId}
    (h : Lane.Resumes (.depositPull call flow) l (s.lane id)) :
    LaneStep env id c c' (.resumeWrap now i reply) l
      ((s.finishDepositPull id now flow pull).lane id) := by
  cases pull with
  | error code =>
      rw [finishDepositPull.eq_1, lane_failDeposit, if_pos rfl]
      exact .depositUnpulled _ h
  | ok pullLedgerTxId =>
      have hrecorded := (lane_updateRequest s id id
        (recordNativeDepositPulled pullLedgerTxId now)).trans (if_pos rfl)
      rw [finishDepositPull.eq_2]
      cases hget : (s.updateRequest id
        (recordNativeDepositPulled pullLedgerTxId now)).wrapRequests.get id with
      | none =>
          have hnone := record_none_of_update hget
          dsimp only
          rw [hrecorded, update_of_record_none hnone]
          obtain ⟨before, after, htasks, hlane⟩ := h
          exact .depositLost (Or.inr rfl) (by rw [hlane] at hnone; exact hnone)
            ⟨before, after, htasks, hlane⟩
      | some req =>
          have hfound : ((s.lane id).update
              (recordNativeDepositPulled pullLedgerTxId now)).record = some req := by
            rw [← hrecorded]
            exact hget
          refine .depositPulled h hfound ?_
          rw [← hrecorded]
          exact lane_depositFinal

theorem resumeWrap_step {env : Env T} {now i : Nat} {reply : WrapReply} {t : GatewayState T}
    (h : resumeWrap env now i reply s = some t) (R : TxId) :
    LaneStep env R s.chain t.chain (.resumeWrap now i reply) (s.lane R) (t.lane R) := by
  rw [resumeWrap] at h
  cases htask : s.wrapTasks[i]? with
  | none =>
      rw [htask] at h
      exact absurd h (by simp)
  | some entry =>
      obtain ⟨id, task⟩ := entry
      rw [htask] at h
      dsimp only at h
      by_cases hR : R = id
      · subst hR
        have hresumes := lane_resumes htask
        cases task <;> cases reply <;> simp only [resumeWrapTask, reduceCtorEq] at h
        · obtain ⟨fee, -, rfl⟩ := Option.map_eq_some_iff.mp h
          exact finishSubmit_step hresumes
        · obtain ⟨pull, -, rfl⟩ := Option.map_eq_some_iff.mp h
          exact finishPull_step hresumes
        · obtain rfl := Option.some.inj h
          exact submitMintTxInternal_step (s := { s with wrapTasks := s.wrapTasks.eraseIdx i })
            hresumes
        · obtain ⟨transfer, -, rfl⟩ := Option.map_eq_some_iff.mp h
          rw [lane_updateRequest, if_pos rfl]
          exact .refunded transfer hresumes
        · obtain ⟨fee, -, rfl⟩ := Option.map_eq_some_iff.mp h
          exact finishDepositFee_step hresumes
        · obtain ⟨pull, -, rfl⟩ := Option.map_eq_some_iff.mp h
          exact finishDepositPull_step hresumes
      · have hsame := lane_eraseTask htask hR
        have hlane : t.lane R = s.lane R := by
          cases task <;> cases reply <;> simp only [resumeWrapTask, reduceCtorEq] at h
          · obtain ⟨fee, -, rfl⟩ := Option.map_eq_some_iff.mp h
            exact (lane_finishSubmit_of_ne hR).trans hsame
          · obtain ⟨pull, -, rfl⟩ := Option.map_eq_some_iff.mp h
            exact (lane_finishPull_of_ne hR).trans hsame
          · obtain rfl := Option.some.inj h
            exact (lane_submitMintTxInternal_of_ne hR).trans hsame
          · obtain ⟨transfer, -, rfl⟩ := Option.map_eq_some_iff.mp h
            exact ((lane_updateRequest ..).trans (if_neg hR)).trans hsame
          · obtain ⟨fee, -, rfl⟩ := Option.map_eq_some_iff.mp h
            exact (lane_finishDepositFee_of_ne hR).trans hsame
          · obtain ⟨pull, -, rfl⟩ := Option.map_eq_some_iff.mp h
            exact (lane_finishDepositPull_of_ne hR).trans hsame
        rw [hlane]
        exact .other

theorem count_requeue (ids queue : List TxId) (R : TxId) :
    (requeue ids queue).count R = if R ∈ ids then max 1 (queue.count R) else queue.count R := by
  induction ids generalizing queue with
  | nil => simp [requeue]
  | cons id ids ih =>
      have hunfold : requeue (id :: ids) queue =
          requeue ids (if id ∈ queue then queue else queue ++ [id]) := rfl
      rw [hunfold, ih]
      by_cases hR : R = id
      · subst hR
        by_cases hmem : R ∈ queue
        · have hpos := List.count_pos_iff.mpr hmem
          simp only [if_pos hmem, List.mem_cons, true_or, Nat.max_eq_right hpos, ite_self]
        · have hzero := List.count_eq_zero.mpr hmem
          simp [hmem, hzero]
      · have hcount : (if id ∈ queue then queue else queue ++ [id]).count R = queue.count R := by
          split_ifs
          · rfl
          · simp [Ne.symm hR]
        simp [hR, hcount]

theorem mem_keysWhere {V : Type} {p : V → Bool} {m : OrdMap TxId V} {R : TxId} :
    R ∈ keysWhere p m ↔ (m.get R).any p = true := by
  simp only [keysWhere, List.mem_map, List.mem_filter, Prod.exists, exists_and_right, exists_eq_right,
    OrdMap.mem_entries, Option.any_eq_true]

theorem settleRequest_cases (c : StableState (World T)) (now : Nat) (req : WrapStoredRequest) :
    settleRequest c now req = req ∨
      ∃ txId receipt, req.mintReceiptCandidate = some txId ∧ getReceipt c txId = some receipt ∧
        ((receipt.status = 1 ∧ settleRequest c now req = req.settleSucceeded now) ∨
          (receipt.status ≠ 1 ∧ settleRequest c now req = req.settleFailed now)) := by
  rw [settleRequest]
  cases hcandidate : req.mintReceiptCandidate with
  | none => exact Or.inl rfl
  | some txId =>
      cases hreceipt : getReceipt c txId with
      | none =>
          dsimp only
          rw [hreceipt]
          exact Or.inl rfl
      | some receipt =>
          dsimp only
          rw [hreceipt]
          by_cases hstatus : receipt.status = 1
          · exact Or.inr ⟨txId, receipt, rfl, hreceipt, Or.inl ⟨hstatus, if_pos hstatus⟩⟩
          · exact Or.inr ⟨txId, receipt, rfl, hreceipt, Or.inr ⟨hstatus, if_neg hstatus⟩⟩

theorem runStale_settleRequest (c : StableState (World T)) (now : Nat) (req : WrapStoredRequest) :
    (settleRequest c now req).runStale now = req.runStale now := by
  rcases settleRequest_cases c now req with hsame | ⟨txId, receipt, hcandidate, -, hsettled⟩
  · rw [hsame]
  · have hsubmitted : req.result.mintSubmitStatus = .submitted := by
      by_contra hne
      rw [mintReceiptCandidate, if_pos (Or.inr (Or.inr hne))] at hcandidate
      exact absurd hcandidate (by simp)
    rcases hsettled with ⟨-, hsettled⟩ | ⟨-, hsettled⟩
    · rw [hsettled]
      simp [runStale, settleSucceeded, sanitizeWrapRequest, hsubmitted]
    · rw [hsettled]
      simp [runStale, settleFailed, sanitizeWrapRequest, hsubmitted]

theorem repairStaleOperations_step {env : Env T} {now : Nat} (R : TxId) :
    LaneStep env R s.chain (s.repairStaleOperations now).chain (.repairStaleOperations now) (s.lane R)
      ((s.repairStaleOperations now).lane R) := by
  have hlane : (s.repairStaleOperations now).lane R =
      { (s.lane R).update (fun req => (settleRequest s.chain now req).repairStale now) with
        queued := if (s.lane R).record.any (runStale now) = true then max 1 (s.lane R).queued
          else (s.lane R).queued } := by
    have hstale : ((s.wrapRequests.get R).map (settleRequest s.chain now)).any (runStale now) =
        (s.wrapRequests.get R).any (runStale now) := by
      cases s.wrapRequests.get R with
      | none => rfl
      | some req => exact runStale_settleRequest s.chain now req
    simp only [repairStaleOperations, settleSubmittedWrapMintReceipts, lane, Lane.update,
      count_requeue, mem_keysWhere, OrdMap.get_map, hstale, Option.map_map]
    rfl
  rw [hlane]
  exact .repair rfl

theorem postUpgrade_step {env : Env T} {now : Nat} {config : Option WrapConfig}
    {c c' : StableState (World T)} (R : TxId) :
    LaneStep env R c c' (.postUpgrade now config) (s.lane R) ((s.postUpgrade now config).lane R) := by
  have hlane : (s.postUpgrade now config).lane R =
      { (s.lane R).update WrapStoredRequest.recoverAfterUpgrade with
        queued := if (s.lane R).record.any upgradeRequeues = true then max 1 (s.lane R).queued
          else (s.lane R).queued
        tasks := [] } := by
    have hkeep : s.applyWrapConfig config = { s with
        wrapFeePolicy := (s.applyWrapConfig config).wrapFeePolicy
        wrapFactoryAddress := (s.applyWrapConfig config).wrapFactoryAddress
        wrapNativeLedgerCanister := (s.applyWrapConfig config).wrapNativeLedgerCanister
        wrapAllowedAssets := (s.applyWrapConfig config).wrapAllowedAssets } := by
      cases config <;> rfl
    rw [postUpgrade, hkeep]
    simp only [lane, Lane.update, count_requeue, mem_keysWhere, OrdMap.get_map]
    rfl
  rw [hlane]
  exact .upgrade rfl

theorem recordUnwrapRequestsFromBlock_frame (crypto : Crypto) (now : Nat) (txIds : List TxId)
    (R : TxId) : (s.recordUnwrapRequestsFromBlock crypto now txIds).lane R = s.lane R ∧
      (s.recordUnwrapRequestsFromBlock crypto now txIds).chain = s.chain := by
  let keeps (u t : GatewayState T) : Prop := t.lane R = u.lane R ∧ t.chain = u.chain
  have htrans {u v w : GatewayState T} (huv : keeps u v) (hvw : keeps v w) : keeps u w :=
    ⟨hvw.1.trans huv.1, hvw.2.trans huv.2⟩
  have hlog (txId : TxId) (u : GatewayState T) (log : Receipt.LogEntry × Nat) :
      keeps u (recordUnwrapRequest crypto now txId u log) := by
    rw [recordUnwrapRequest]
    split
    · rw [insertUnwrapDispatchRequest]
      split_ifs <;> exact ⟨rfl, rfl⟩
    · exact ⟨rfl, rfl⟩
  have hlogs (txId : TxId) (logs : List (Receipt.LogEntry × Nat)) (u : GatewayState T) :
      keeps u (logs.foldl (recordUnwrapRequest crypto now txId) u) := by
    induction logs generalizing u with
    | nil => exact ⟨rfl, rfl⟩
    | cons log logs ih => exact htrans (hlog txId u log) (ih _)
  have htx (u : GatewayState T) (txId : TxId) :
      keeps u (recordUnwrapRequestsFromTx crypto now u txId) := by
    rw [recordUnwrapRequestsFromTx]
    cases getReceipt u.chain txId with
    | none => exact ⟨rfl, rfl⟩
    | some receipt => exact hlogs txId _ u
  induction txIds generalizing s with
  | nil => exact ⟨rfl, rfl⟩
  | cons txId txIds ih => exact htrans (htx s txId) ih

theorem miningTick_step {env : Env T} {call : CallEnv} {now : Nat} {t : GatewayState T}
    (h : miningTick env call now s = some t) (R : TxId) :
    LaneStep env R s.chain t.chain (.miningTick now call) (s.lane R) (t.lane R) := by
  rw [miningTick] at h
  split at h
  · exact absurd h (by simp)
  · obtain rfl := Option.some.inj h
    exact .other
  · rename_i outcome chain _
    obtain rfl := Option.some.inj h
    have hframe := recordUnwrapRequestsFromBlock_frame (s := { s with chain := chain }) env.crypto now
      outcome.block.txIds R
    have hlane (u : GatewayState T) : (settleSubmittedWrapMintReceipts now u).lane R =
        (u.lane R).update (settleRequest u.chain now) := by
      simp [settleSubmittedWrapMintReceipts, lane, Lane.update]
    rw [hlane, hframe.1]
    exact .settle

theorem finishDispatch_lane {now : Nat} {applied : Except String LedgerTxId} (R : TxId) :
    (s.finishDispatch id now applied).lane R = s.lane R := rfl

theorem sendPayout_lane {env : Env T} {ledger recipient : StoredPrincipal} {amount : Nat}
    {req : UnwrapDispatchRequest} (R : TxId) :
    (s.sendPayout env id ledger recipient amount req).lane R = s.lane R :=
  lane_callPayout s id R ledger.principal _

theorem dispatchUnwrapRequestInternal_lane {env : Env T} {now : Nat} {req : UnwrapDispatchRequest}
    (R : TxId) : (s.dispatchUnwrapRequestInternal env id now req).lane R = s.lane R := by
  rw [dispatchUnwrapRequestInternal]
  cases s.dispatchLedger req with
  | error code => rfl
  | ok ledger =>
      cases StoredPrincipal.ofBytes req.recipient with
      | none => rfl
      | some recipient =>
          dsimp only
          split_ifs
          · rfl
          · exact sendPayout_lane R

theorem unwrapDispatchTick_lane {env : Env T} {now : Nat} {t : GatewayState T}
    (h : unwrapDispatchTick env now s = some t) (R : TxId) : t.lane R = s.lane R := by
  rw [unwrapDispatchTick] at h
  split at h
  · exact absurd h (by simp)
  · obtain rfl := Option.some.inj h
    rfl
  · rename_i head rest _
    dsimp only at h
    cases hget : s.unwrapRequests.get head with
    | none =>
        rw [hget] at h
        obtain rfl := Option.some.inj h
        rfl
    | some req =>
        rw [hget] at h
        dsimp only at h
        split_ifs at h
        · obtain rfl := Option.some.inj h
          rfl
        · obtain rfl := Option.some.inj h
          exact dispatchUnwrapRequestInternal_lane R

theorem finishDispatchFee_lane {env : Env T} {now : Nat} {ledger recipient : StoredPrincipal}
    {req : UnwrapDispatchRequest} {fee : Except String (BitVec 128)} (R : TxId) :
    (s.finishDispatchFee env id now ledger recipient req fee).lane R = s.lane R := by
  cases fee with
  | error code => rfl
  | ok fee =>
      rw [finishDispatchFee.eq_2]
      cases nativeWithdrawGrossTransferAmount req.amount fee.toNat with
      | error code => rfl
      | ok amount => exact sendPayout_lane R

theorem resumeDispatch_lane {env : Env T} {now i : Nat} {reply : DispatchReply} {t : GatewayState T}
    (h : resumeDispatch env now i reply s = some t) (R : TxId) : t.lane R = s.lane R := by
  rw [resumeDispatch] at h
  cases htask : s.dispatchTasks[i]? with
  | none =>
      rw [htask] at h
      exact absurd h (by simp)
  | some entry =>
      obtain ⟨id, task⟩ := entry
      rw [htask] at h
      dsimp only at h
      cases task <;> cases reply <;> simp only [resumeDispatchTask, reduceCtorEq] at h
      · obtain rfl := Option.some.inj h
        exact finishDispatchFee_lane R
      · obtain ⟨applied, -, rfl⟩ := Option.map_eq_some_iff.mp h
        rfl

theorem retryUnwrapDispatch_lane {now : Nat} {t : GatewayState T}
    (h : retryUnwrapDispatch now id s = some t) (R : TxId) : t.lane R = s.lane R := by
  simp only [retryUnwrapDispatch, Option.bind_eq_bind, Option.bind_none] at h
  obtain ⟨req, -, h⟩ := Option.bind_eq_some_iff.mp h
  obtain ⟨-, h⟩ := Option.ite_none_left_eq_some.mp h
  obtain rfl := Option.some.inj h
  rfl

theorem ledgerExecutes_lane {env : Env T} {i : Nat} {refusal : Option String} {t : GatewayState T}
    (h : ledgerExecutes env i refusal s = some t) (R : TxId) : t.lane R = s.lane R := by
  obtain ⟨⟨ledgers, calls⟩, hexecute, rfl⟩ := Option.map_eq_some_iff.mp h
  obtain ⟨call, outcome, l, hx⟩ := DedupLedger.execute_some hexecute
  have horigins (p : CallOrigin → Bool) :
      calls.any (fun call => p call.origin) = s.calls.any (fun call => p call.origin) := by
    have hany (calls : List LedgerCall) : calls.any (fun call => p call.origin) =
        (calls.map (fun call => call.origin)).any p := by
      rw [List.any_map]
      rfl
    rw [hany, hany, hx.origins]
  simp only [lane, horigins (fun origin => decide (origin = .pull R)),
    horigins (fun origin => decide (origin = .refund R))]

theorem submitIcTx_lane {env : Env T} {now : Nat} {caller : Principal} {tx : IcSyntheticTxInput}
    {t : GatewayState T} (h : submitIcTx env now caller tx s = some t) (R : TxId) :
    t.lane R = s.lane R := by
  rw [submitIcTx] at h
  obtain ⟨-, h⟩ := Option.ite_none_left_eq_some.mp h
  obtain rfl := Option.some.inj h
  rfl

theorem insertUnwrapDispatchRequest_lane {req : UnwrapDispatchRequest} (R : TxId) :
    (s.insertUnwrapDispatchRequest id req).lane R = s.lane R := by
  rw [insertUnwrapDispatchRequest]
  split_ifs <;> rfl

end

end GatewayState

open GatewayState

theorem perform_lane {env : Env T} {a : Action} {s t : GatewayState T}
    (h : perform env a s = some t) (R : TxId) :
    LaneStep env R s.chain t.chain a (s.lane R) (t.lane R) := by
  have hsame (hlane : t.lane R = s.lane R) :
      LaneStep env R s.chain t.chain a (s.lane R) (t.lane R) := by
    rw [hlane]
    exact .other
  cases a with
  | submitWrapRequest now gasPrice caller args => exact submitWrapRequest_step h R
  | submitNativeDeposit now caller args => exact submitNativeDeposit_step h R
  | wrapWorkerTick now => exact wrapWorkerTick_step h R
  | resumeWrap now i reply => exact resumeWrap_step h R
  | recoverFailedWrap now id => exact recoverFailedWrap_step h R
  | retryNativeDeposit now id => exact retryNativeDeposit_step h R
  | repairStaleOperations now =>
      obtain rfl := Option.some.inj h
      exact repairStaleOperations_step R
  | postUpgrade now config =>
      obtain rfl := Option.some.inj h
      exact postUpgrade_step R
  | miningTick now call => exact miningTick_step h R
  | unwrapDispatchTick now => exact hsame (unwrapDispatchTick_lane h R)
  | resumeDispatch now i reply => exact hsame (resumeDispatch_lane h R)
  | retryUnwrapDispatch now id => exact hsame (retryUnwrapDispatch_lane h R)
  | dispatchUnwrapRequest now id assetId amount recipient =>
      obtain rfl := Option.some.inj h
      exact hsame (insertUnwrapDispatchRequest_lane R)
  | submitIcTx now caller tx => exact hsame (submitIcTx_lane h R)
  | ledgerExecutes now i refusal => exact hsame (ledgerExecutes_lane h R)
  | setFeePolicy now policy =>
      obtain rfl := Option.some.inj h
      exact hsame rfl
  | submitTx now txBytes caller =>
      obtain rfl := Option.some.inj h
      exact hsame rfl
  | ledgerFee now ledger fee =>
      obtain rfl := Option.some.inj h
      exact hsame rfl
  | ledgerClock now ledger elapsed =>
      obtain rfl := Option.some.inj h
      exact hsame rfl
  | ledgerReceives now ledger amount =>
      obtain rfl := Option.some.inj h
      exact hsame rfl

theorem lane_init {world : World T} {config : WrapConfig}
    {ledgers : Principal → DedupLedger.Ledger Principal} (R : TxId) :
    (init world config ledgers).lane R = .start := rfl

end Kasane.Gateway
