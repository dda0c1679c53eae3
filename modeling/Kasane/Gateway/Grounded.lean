import Kasane.Gateway.Projection
import Kasane.Chain.NewReceipts

namespace Kasane.Gateway

open BigEndian Word Chain Exec
open WrapStoredRequest

variable {T : Type}

inductive ChainStep (env : Env T) (c : StableState (World T)) : StableState (World T) → Prop
  | same : ChainStep env c c
  | credit (db : RevmStableDb) : ChainStep env c { c with world := { c.world with db := db } }
  | submitTx (now : Nat) (raw : Bytes) (who : Principal) :
      ChainStep env c
        (Chain.submitTx env.crypto (evm env.crypto env.revm env.trie) now .ethSigned raw who c).2
  | submitIcTx (now : Nat) (tx : IcSyntheticTxInput) {who : Principal} (named : who.bytes ≠ []) :
      ChainStep env c (submitIcTxInput env.crypto (evm env.crypto env.revm env.trie) now who
        env.canisterSelf.principal tx c).2
  | produce {c' : StableState (World T)} {call : CallEnv} {n : Nat}
      {r : Except ChainError ProduceBlockOutcome}
      (produced : produceBlock env.crypto (evm env.crypto env.revm env.trie) call n c =
        some (r, c')) : ChainStep env c c'

inductive SubmitStep (env : Env T) (c : StableState (World T)) : StableState (World T) → Prop
  | same : SubmitStep env c c
  | credit (db : RevmStableDb) : SubmitStep env c { c with world := { c.world with db := db } }
  | submitTx (now : Nat) (raw : Bytes) (who : Principal) :
      SubmitStep env c
        (Chain.submitTx env.crypto (evm env.crypto env.revm env.trie) now .ethSigned raw who c).2
  | submitIcTx (now : Nat) (tx : IcSyntheticTxInput) {who : Principal} (named : who.bytes ≠ []) :
      SubmitStep env c (submitIcTxInput env.crypto (evm env.crypto env.revm env.trie) now who
        env.canisterSelf.principal tx c).2

theorem SubmitStep.chainStep {env : Env T} {c c' : StableState (World T)} (h : SubmitStep env c c') :
    ChainStep env c c' := by
  cases h with
  | same => exact .same
  | credit db => exact .credit db
  | submitTx now raw who => exact .submitTx now raw who
  | submitIcTx now tx named => exact .submitIcTx now tx named

theorem SubmitStep.receipts {env : Env T} {c c' : StableState (World T)} (h : SubmitStep env c c') :
    c'.receipts = c.receipts := by
  cases h with
  | same => rfl
  | credit => rfl
  | submitTx now raw who => exact (submission_submitTx ..).receipts
  | submitIcTx now tx => exact (submission_submitIcTxInput ..).receipts

namespace GatewayState

variable {env : Env T} {s t : GatewayState T} {id : TxId} {now : Nat}

theorem chain_startMint {req : WrapStoredRequest} {pullLedgerTxId : LedgerTxId} :
    (s.startMint id now req pullLedgerTxId).chain = s.chain := by
  rw [startMint]
  split
  · rfl
  · split <;> rfl

theorem chain_executeWrapRequest {req : WrapStoredRequest} :
    (s.executeWrapRequest env id now req).chain = s.chain := by
  rw [executeWrapRequest]
  split
  · exact chain_startMint
  · rfl

theorem chain_creditNativeDeposit (recipient : Address) (amountWei : Nat) :
    SubmitStep env s.chain (s.creditNativeDeposit id recipient amountWei).2.chain := by
  rw [creditNativeDeposit]
  split
  · exact .same
  · split
    · split
      · exact .same
      · exact .same
    · split
      · exact .same
      · exact .credit _

theorem chain_depositFinal {flow : DepositFlow} {req : WrapStoredRequest} :
    SubmitStep env s.chain (s.depositFinal id now flow req).chain := by
  rw [depositFinal]
  split
  · exact chain_creditNativeDeposit flow.evmRecipient flow.amountWei
  · exact .same

theorem chain_depositFromPull {flow : DepositFlow} {req : WrapStoredRequest} :
    SubmitStep env s.chain (s.depositFromPull env id now flow req).chain := by
  rw [depositFromPull]
  split
  · exact .same
  · exact chain_depositFinal

theorem chain_submitMintTx {pullLedgerTxId : LedgerTxId} {wrapEvm : Address}
    {tx : IcSyntheticTxInput} :
    SubmitStep env s.chain (s.submitMintTx env id now pullLedgerTxId wrapEvm tx).chain := by
  have hstep : SubmitStep env s.chain (submitIcTxInput env.crypto
      (evm env.crypto env.revm env.trie) (now / nanosPerSec) env.canisterSelf.principal
        env.canisterSelf.principal tx s.chain).2 :=
    .submitIcTx _ tx env.canisterSelf.nonempty
  rw [submitMintTx]
  dsimp only
  split
  · rename_i heq
    rw [heq] at hstep
    exact hstep
  · rename_i heq
    rw [heq] at hstep
    split
    · exact hstep
    · exact hstep

theorem chain_submitMintTxInternal {factory : Address} {req : WrapStoredRequest}
    {pullLedgerTxId : LedgerTxId} {reply : MintReply} :
    SubmitStep env s.chain
      (s.submitMintTxInternal env id now factory req pullLedgerTxId reply).chain := by
  rw [submitMintTxInternal]
  dsimp only
  split
  · exact .same
  · split
    · exact .same
    · split
      · exact .same
      · exact chain_submitMintTx (s := s.updateRequest id _)

theorem chain_finishPull {req : WrapStoredRequest} {pull : Except String LedgerTxId} :
    (s.finishPull id now req pull).chain = s.chain := by
  cases pull with
  | error code => rfl
  | ok pullLedgerTxId => exact chain_startMint

theorem chain_finishDepositFee {flow : DepositFlow} {fee : Except String LedgerTxId} :
    SubmitStep env s.chain (s.finishDepositFee env id now flow fee).chain := by
  cases fee with
  | error code => exact .same
  | ok feeLedgerTxId =>
      rw [finishDepositFee]
      split
      · exact .same
      · exact chain_depositFromPull (s := s.updateRequest id _)

theorem chain_finishDepositPull {flow : DepositFlow} {pull : Except String LedgerTxId} :
    SubmitStep env s.chain (s.finishDepositPull id now flow pull).chain := by
  cases pull with
  | error code => exact .same
  | ok pullLedgerTxId =>
      rw [finishDepositPull]
      split
      · exact .same
      · exact chain_depositFinal (s := s.updateRequest id _)

theorem chain_submitNativeDeposit {who : Principal} {args : SubmitNativeDepositArgs}
    (h : submitNativeDeposit env now who args s = some t) : SubmitStep env s.chain t.chain := by
  obtain ⟨id, caller, flow, req, policy, -, -, rfl⟩ := submitNativeDeposit_some h
  split_ifs
  · exact .same
  · exact chain_depositFromPull (s := s.reserve id caller req)

theorem chain_wrapWorkerTick (h : wrapWorkerTick env now s = some t) : t.chain = s.chain := by
  obtain ⟨⟨id, req, rest⟩, -, h⟩ := Option.bind_eq_some_iff.mp h
  obtain rfl := Option.some.inj h
  exact chain_executeWrapRequest

theorem chain_retryNativeDeposit (h : retryNativeDeposit id s = some t) :
    SubmitStep env s.chain t.chain := by
  simp only [retryNativeDeposit, Option.bind_eq_bind] at h
  obtain ⟨old, -, h⟩ := Option.bind_eq_some_iff.mp h
  obtain ⟨req, -, h⟩ := Option.bind_eq_some_iff.mp h
  obtain rfl := Option.some.inj h
  cases nativeDepositAmountWei req.amount with
  | error code => exact .same
  | ok amountWei =>
      exact chain_creditNativeDeposit
        (s := { s with wrapRequests := s.wrapRequests.insert id req }) req.evmRecipient amountWei

theorem chain_resumeWrap {i : Nat} {reply : WrapReply} (h : resumeWrap env now i reply s = some t) :
    SubmitStep env s.chain t.chain := by
  rw [resumeWrap] at h
  split at h
  · exact absurd h (by simp)
  · rename_i id task _
    let resumed : GatewayState T := { s with wrapTasks := s.wrapTasks.eraseIdx i }
    cases task <;> cases reply <;> simp only [resumeWrapTask, reduceCtorEq] at h
    · obtain ⟨fee, -, rfl⟩ := Option.map_eq_some_iff.mp h
      have hchain : (resumed.finishSubmit id now fee).chain = s.chain := by
        cases fee with
        | error code => rfl
        | ok feeLedgerTxId =>
            rw [finishSubmit, clearWrapPendingSubmission, enqueueWrapRequestOnce]
            split_ifs <;> rfl
      rw [hchain]
      exact .same
    · obtain ⟨pull, -, rfl⟩ := Option.map_eq_some_iff.mp h
      rw [chain_finishPull (s := resumed)]
      exact .same
    · obtain rfl := Option.some.inj h
      exact chain_submitMintTxInternal (s := resumed)
    · obtain ⟨transfer, -, rfl⟩ := Option.map_eq_some_iff.mp h
      exact .same
    · obtain ⟨fee, -, rfl⟩ := Option.map_eq_some_iff.mp h
      exact chain_finishDepositFee (s := resumed)
    · obtain ⟨pull, -, rfl⟩ := Option.map_eq_some_iff.mp h
      exact chain_finishDepositPull (s := resumed)

theorem chain_miningTick {call : CallEnv} (h : miningTick env call now s = some t) :
    ChainStep env s.chain t.chain := by
  rw [miningTick] at h
  split at h
  · exact absurd h (by simp)
  · rename_i hproduced
    obtain rfl := Option.some.inj h
    exact .produce hproduced
  · rename_i outcome chain hproduced
    obtain rfl := Option.some.inj h
    have hframe := recordUnwrapRequestsFromBlock_frame (s := { s with chain := chain }) env.crypto now
      outcome.block.txIds (zeroArr 32)
    have hchain : (settleSubmittedWrapMintReceipts now (recordUnwrapRequestsFromBlock env.crypto now
        outcome.block.txIds { s with chain := chain })).chain = chain := hframe.2
    rw [hchain]
    exact .produce hproduced

theorem chain_insertUnwrap {req : UnwrapDispatchRequest} :
    (s.insertUnwrapDispatchRequest id req).chain = s.chain := by
  rw [insertUnwrapDispatchRequest]
  split_ifs <;> rfl

theorem chain_sendPayout {ledger recipient : StoredPrincipal} {amount : Nat}
    {req : UnwrapDispatchRequest} :
    (s.sendPayout env id ledger recipient amount req).chain = s.chain := rfl

theorem chain_dispatchUnwrap {req : UnwrapDispatchRequest} :
    (s.dispatchUnwrapRequestInternal env id now req).chain = s.chain := by
  rw [dispatchUnwrapRequestInternal]
  split
  · rfl
  · split
    · rfl
    · split_ifs <;> rfl

theorem chain_unwrapDispatchTick (h : unwrapDispatchTick env now s = some t) :
    t.chain = s.chain := by
  rw [unwrapDispatchTick] at h
  split at h
  · exact absurd h (by simp)
  · obtain rfl := Option.some.inj h
    rfl
  · dsimp only at h
    split at h
    · obtain rfl := Option.some.inj h
      rfl
    · split_ifs at h
      · obtain rfl := Option.some.inj h
        rfl
      · obtain rfl := Option.some.inj h
        exact chain_dispatchUnwrap

theorem chain_finishDispatchFee {ledger recipient : StoredPrincipal} {req : UnwrapDispatchRequest}
    {fee : Except String (BitVec 128)} :
    (s.finishDispatchFee env id now ledger recipient req fee).chain = s.chain := by
  rw [finishDispatchFee.eq_def]
  split
  · rfl
  · split <;> rfl

theorem chain_resumeDispatch {i : Nat} {reply : DispatchReply}
    (h : resumeDispatch env now i reply s = some t) : t.chain = s.chain := by
  rw [resumeDispatch] at h
  split at h
  · exact absurd h (by simp)
  · rename_i id task _
    cases task <;> cases reply <;> simp only [resumeDispatchTask, reduceCtorEq] at h
    · obtain rfl := Option.some.inj h
      exact chain_finishDispatchFee (s := { s with dispatchTasks := s.dispatchTasks.eraseIdx i })
    · obtain ⟨applied, -, rfl⟩ := Option.map_eq_some_iff.mp h
      rfl

end GatewayState

open GatewayState

theorem perform_submits {env : Env T} {a : Action} {s t : GatewayState T}
    (h : perform env a s = some t) (hmining : ∀ now call, a ≠ .miningTick now call) :
    SubmitStep env s.chain t.chain := by
  have hsame (hchain : t.chain = s.chain) : SubmitStep env s.chain t.chain := by
    rw [hchain]
    exact .same
  cases a with
  | submitWrapRequest now gasPrice caller args =>
      obtain ⟨id, who, req, feeLedger, fee, -, -, rfl⟩ := submitWrapRequest_some h
      exact hsame rfl
  | submitNativeDeposit now caller args => exact chain_submitNativeDeposit h
  | wrapWorkerTick now => exact hsame (chain_wrapWorkerTick h)
  | resumeWrap now i reply => exact chain_resumeWrap h
  | recoverFailedWrap now id =>
      simp only [perform, GatewayState.recoverFailedWrap, Option.bind_eq_bind] at h
      obtain ⟨old, -, h⟩ := Option.bind_eq_some_iff.mp h
      obtain ⟨req, -, h⟩ := Option.bind_eq_some_iff.mp h
      obtain rfl := Option.some.inj h
      exact hsame rfl
  | retryNativeDeposit now id => exact chain_retryNativeDeposit h
  | repairStaleOperations now =>
      obtain rfl := Option.some.inj h
      exact hsame rfl
  | postUpgrade now config =>
      obtain rfl := Option.some.inj h
      cases config <;> exact hsame rfl
  | miningTick now call => exact absurd rfl (hmining now call)
  | unwrapDispatchTick now => exact hsame (chain_unwrapDispatchTick h)
  | resumeDispatch now i reply => exact hsame (chain_resumeDispatch h)
  | retryUnwrapDispatch now id =>
      simp only [perform, retryUnwrapDispatch, Option.bind_eq_bind, Option.bind_none] at h
      obtain ⟨req, -, h⟩ := Option.bind_eq_some_iff.mp h
      obtain ⟨-, h⟩ := Option.ite_none_left_eq_some.mp h
      obtain rfl := Option.some.inj h
      exact hsame rfl
  | dispatchUnwrapRequest now id assetId amount recipient =>
      obtain rfl := Option.some.inj h
      exact hsame chain_insertUnwrap
  | submitTx now txBytes caller =>
      obtain rfl := Option.some.inj h
      exact .submitTx _ txBytes caller
  | submitIcTx now caller tx =>
      simp only [perform, submitIcTx] at h
      obtain ⟨hcaller, h⟩ := Option.ite_none_left_eq_some.mp h
      obtain rfl := Option.some.inj h
      exact .submitIcTx _ tx (not_or.mp hcaller).1
  | ledgerExecutes now i refusal =>
      obtain ⟨⟨ledgers, calls⟩, -, rfl⟩ := Option.map_eq_some_iff.mp h
      exact hsame rfl
  | setFeePolicy now policy =>
      obtain rfl := Option.some.inj h
      exact hsame rfl
  | ledgerFee now ledger fee =>
      obtain rfl := Option.some.inj h
      exact hsame rfl
  | ledgerClock now ledger elapsed =>
      obtain rfl := Option.some.inj h
      exact hsame rfl
  | ledgerReceives now ledger amount =>
      obtain rfl := Option.some.inj h
      exact hsame rfl

theorem perform_chain {env : Env T} {a : Action} {s t : GatewayState T}
    (h : perform env a s = some t) : ChainStep env s.chain t.chain := by
  by_cases hmining : ∃ now call, a = .miningTick now call
  · obtain ⟨now, call, rfl⟩ := hmining
    exact chain_miningTick h
  · apply SubmitStep.chainStep
    apply perform_submits h
    intro now call ha
    exact hmining ⟨now, call, ha⟩

theorem ChainStep.consistent {env : Env T} {c c' : StableState (World T)} {p : Pool}
    (h : ChainStep env c c') (hc : Consistent env.crypto False c p) :
    ∃ p', Consistent env.crypto False c' p' := by
  cases h with
  | same => exact ⟨p, hc⟩
  | credit => exact ⟨p, hc.indexed, hc.backed, hc.archived, hc.bounded, hc.counted⟩
  | submitTx now raw who => exact consistent_submitTx now raw who hc
  | submitIcTx now tx named =>
      exact consistent_submitIcTxInput now named env.canisterSelf.nonempty tx hc
  | produce produced => exact consistent_produceBlock hc produced

theorem ChainStep.advances {env : Env T} {c c' : StableState (World T)} {p : Pool}
    (h : ChainStep env c c') (hc : Consistent env.crypto False c p) : Advances c c' := by
  cases h with
  | same => exact (Quiet.refl c).advances
  | credit => exact .ofSame rfl rfl rfl rfl rfl
  | submitTx now raw who => exact (submission_submitTx ..).advances
  | submitIcTx now tx => exact (submission_submitIcTxInput ..).advances
  | produce produced => exact advances_produceBlock hc produced

structure Grounded (c : Crypto) (chain : StableState (World T)) : Prop where
  consistent : ∃ p, Consistent c False chain p
  books : Books chain
  minPriorityFee : chain.chainState.minPriorityFee = ChainState.new.minPriorityFee

theorem grounded_init (c : Crypto) (world : World T) : Grounded c (StableState.init world) :=
  ⟨⟨.empty, consistent_init world⟩, books_init world, rfl⟩

theorem ChainStep.grounded {env : Env T} {c c' : StableState (World T)} (h : ChainStep env c c')
    (hc : Grounded env.crypto c) : Grounded env.crypto c' := by
  obtain ⟨⟨p, hp⟩, hbooks, hfee⟩ := hc
  have hadvances := h.advances hp
  exact ⟨h.consistent hp, hadvances.books hbooks, hadvances.minPriorityFee.trans hfee⟩

-- a receipt, once a block wrote it, answers the same for the rest of the run
theorem ChainStep.getReceipt {env : Env T} {c c' : StableState (World T)} (h : ChainStep env c c')
    (hc : Grounded env.crypto c) {id : TxId} {receipt : Receipt.ReceiptLike}
    (hr : Gateway.getReceipt c id = some receipt) : Gateway.getReceipt c' id = some receipt := by
  obtain ⟨⟨p, hp⟩, hbooks, -⟩ := hc
  obtain ⟨p', hp'⟩ := h.consistent hp
  have hadvances := h.advances hp
  cases hptr : c.receipts.get id with
  | none =>
      rw [Gateway.getReceipt, hptr] at hr
      exact absurd hr (by simp)
  | some ptr =>
      obtain ⟨data, hdata⟩ := (hbooks id ptr hptr).held
      have hread := Blob.BlobStore.read_of_holds hp.archived.sound hdata
      have hread' := Blob.BlobStore.read_of_holds hp'.archived.sound (hadvances.holds ptr data hdata)
      rw [Gateway.getReceipt, hptr] at hr
      rw [Gateway.getReceipt, hadvances.receipts hbooks id ptr hptr]
      dsimp only at hr ⊢
      rw [hread] at hr
      rw [hread']
      exact hr

theorem ChainStep.getReceipt_of_same {env : Env T} {c c' : StableState (World T)}
    (h : ChainStep env c c') (hc : Grounded env.crypto c) {id : TxId}
    (hsame : c'.receipts.get id = c.receipts.get id) :
    Gateway.getReceipt c' id = Gateway.getReceipt c id := by
  obtain ⟨⟨p, hp⟩, hbooks, -⟩ := hc
  obtain ⟨p', hp'⟩ := h.consistent hp
  rw [Gateway.getReceipt, Gateway.getReceipt, hsame]
  cases hptr : c.receipts.get id with
  | none => rfl
  | some ptr =>
      obtain ⟨data, hdata⟩ := (hbooks id ptr hptr).held
      dsimp only
      rw [Blob.BlobStore.read_of_holds hp.archived.sound hdata,
        Blob.BlobStore.read_of_holds hp'.archived.sound ((h.advances hp).holds ptr data hdata)]

theorem run_grounded {env : Env T} {allowed : GatewayState T → Action → Prop} {world : World T}
    {config : WrapConfig} {ledgers : Principal → DedupLedger.Ledger Principal} {s : GatewayState T}
    (run : Run env allowed (init world config ledgers) s) : Grounded env.crypto s.chain := by
  refine run_invariant (fun s => Grounded env.crypto s.chain) (grounded_init env.crypto world) ?_ run
  intro s t a hinv _ _ hdone
  exact (perform_chain hdone).grounded hinv

end Kasane.Gateway
