import Kasane.Gateway.Dispatch
import Kasane.Chain.Produce

namespace Kasane.Gateway

open BigEndian Codec Word Chain Exec
open Precompile (nativeWithdrawIntentFromLog unwrapIntentFromLog)

variable {T : Type}

def deriveLogRequestId (c : Crypto) (txId : TxId) (logIndex : Nat) : Option TxId :=
  (u32TryFrom logIndex).map (fun index => c.keccak256 (txId.toList ++ u32Bytes index))

def unwrapRequestFromLog (c : Crypto) (now : Nat) (log : Receipt.LogEntry) :
    Option UnwrapDispatchRequest :=
  match nativeWithdrawIntentFromLog c.keccak256 log with
  | some intent =>
      some (.new nativeWithdrawAssetMarker (decode intent.amountE8s.toList) intent.recipient now)
  | none =>
      (unwrapIntentFromLog c.keccak256 log).map (fun intent =>
        .new intent.assetId (decode intent.amount.toList) intent.recipient now)

namespace GatewayState

def recordUnwrapRequest (c : Crypto) (now : Nat) (txId : TxId) (s : GatewayState T)
    (log : Receipt.LogEntry × Nat) : GatewayState T :=
  match unwrapRequestFromLog c now log.1, deriveLogRequestId c txId log.2 with
  | some req, some id => s.insertUnwrapDispatchRequest id req
  | _, _ => s

def recordUnwrapRequestsFromTx (c : Crypto) (now : Nat) (s : GatewayState T) (txId : TxId) : GatewayState T :=
  match getReceipt s.chain txId with
  | none => s
  | some receipt => receipt.logs.zipIdx.foldl (recordUnwrapRequest c now txId) s

def recordUnwrapRequestsFromBlock (c : Crypto) (now : Nat) (txIds : List TxId) (s : GatewayState T) :
    GatewayState T :=
  txIds.foldl (recordUnwrapRequestsFromTx c now) s

def miningTick (env : Env T) (call : CallEnv) (now : Nat) (s : GatewayState T) : Option (GatewayState T) :=
  match produceBlock env.crypto (evm env.crypto env.revm env.trie) call maxTxsPerBlock s.chain with
  | none => none
  | some (.error _, chain) => some { s with chain := chain }
  | some (.ok outcome, chain) => some (settleSubmittedWrapMintReceipts now
      (recordUnwrapRequestsFromBlock env.crypto now outcome.block.txIds { s with chain := chain }))

end GatewayState

inductive WrapReply where
  | ledger (reply : LedgerReply)
  | mint (reply : MintReply)

inductive DispatchReply where
  | fee (reply : Except String (BitVec 128))
  | ledger (reply : LedgerReply)

inductive Action where
  | submitWrapRequest (now gasPrice : Nat) (caller : Principal) (args : SubmitWrapRequestArgs)
  | submitNativeDeposit (now : Nat) (caller : Principal) (args : SubmitNativeDepositArgs)
  | wrapWorkerTick (now : Nat)
  | resumeWrap (now i : Nat) (reply : WrapReply)
  | recoverFailedWrap (now : Nat) (id : TxId)
  | retryNativeDeposit (now : Nat) (id : TxId)
  | repairStaleOperations (now : Nat)
  | postUpgrade (now : Nat) (config : Option WrapConfig)
  | setFeePolicy (now : Nat) (policy : FeePolicy)
  | unwrapDispatchTick (now : Nat)
  | resumeDispatch (now i : Nat) (reply : DispatchReply)
  | retryUnwrapDispatch (now : Nat) (id : TxId)
  | dispatchUnwrapRequest (now : Nat) (id : TxId) (assetId : Bytes) (amount : Nat) (recipient : Bytes)
  | submitTx (now : Nat) (txBytes : Bytes) (caller : Principal)
  | submitIcTx (now : Nat) (caller : Principal) (tx : IcSyntheticTxInput)
  | miningTick (now : Nat) (call : CallEnv)
  | ledgerExecutes (now i : Nat) (refusal : Option String)
  | ledgerFee (now : Nat) (ledger : Principal) (fee : Nat)
  | ledgerClock (now : Nat) (ledger : Principal) (elapsed : Nat)
  | ledgerReceives (now : Nat) (ledger : Principal) (amount : Nat)

def Action.now : Action → Nat
  | .submitWrapRequest now _ _ _ => now
  | .submitNativeDeposit now _ _ => now
  | .wrapWorkerTick now => now
  | .resumeWrap now _ _ => now
  | .recoverFailedWrap now _ => now
  | .retryNativeDeposit now _ => now
  | .repairStaleOperations now => now
  | .postUpgrade now _ => now
  | .setFeePolicy now _ => now
  | .unwrapDispatchTick now => now
  | .resumeDispatch now _ _ => now
  | .retryUnwrapDispatch now _ => now
  | .dispatchUnwrapRequest now _ _ _ _ => now
  | .submitTx now _ _ => now
  | .submitIcTx now _ _ => now
  | .miningTick now _ => now
  | .ledgerExecutes now _ _ => now
  | .ledgerFee now _ _ => now
  | .ledgerClock now _ _ => now
  | .ledgerReceives now _ _ => now

namespace GatewayState

def resumeWrapTask (env : Env T) (s : GatewayState T) (id : TxId) (now : Nat) :
    WrapTask → WrapReply → Option (GatewayState T)
  | .submitFee call, .ledger reply =>
      (s.reply call "ledger.transfer_from_failed:" reply).map (s.finishSubmit id now)
  | .pull call req, .ledger reply =>
      (s.reply call "ledger.transfer_from_failed:" reply).map (s.finishPull id now req)
  | .decimals factory req pullLedgerTxId, .mint reply =>
      some (s.submitMintTxInternal env id now factory req pullLedgerTxId reply)
  | .refund call, .ledger reply =>
      (s.reply call "ledger.transfer_failed:" reply).map (fun transfer =>
        s.updateRequest id (WrapStoredRequest.finishRecover transfer now))
  | .depositFee call flow, .ledger reply =>
      (s.reply call "ledger.transfer_from_failed:" reply).map (s.finishDepositFee env id now flow)
  | .depositPull call flow, .ledger reply =>
      (s.reply call "ledger.transfer_from_failed:" reply).map (s.finishDepositPull id now flow)
  | _, _ => none

def resumeWrap (env : Env T) (now i : Nat) (reply : WrapReply) (s : GatewayState T) : Option (GatewayState T) :=
  match s.wrapTasks[i]? with
  | none => none
  | some (id, task) =>
      ({ s with wrapTasks := s.wrapTasks.eraseIdx i } : GatewayState T).resumeWrapTask env id now task reply

def resumeDispatchTask (env : Env T) (s : GatewayState T) (id : TxId) (now : Nat) :
    DispatchTask → DispatchReply → Option (GatewayState T)
  | .fee ledger recipient req, .fee reply =>
      some (s.finishDispatchFee env id now ledger recipient req reply)
  | .transfer call, .ledger reply =>
      (s.reply call "ledger.transfer_failed:" reply).map (s.finishDispatch id now)
  | _, _ => none

def resumeDispatch (env : Env T) (now i : Nat) (reply : DispatchReply) (s : GatewayState T) :
    Option (GatewayState T) :=
  match s.dispatchTasks[i]? with
  | none => none
  | some (id, task) =>
      ({ s with dispatchTasks := s.dispatchTasks.eraseIdx i } : GatewayState T).resumeDispatchTask env id now
        task reply

def submitTx (env : Env T) (now : Nat) (txBytes : Bytes) (caller : Principal) (s : GatewayState T) : GatewayState T :=
  { s with chain := (Chain.submitTx env.crypto (evm env.crypto env.revm env.trie)
    (now / nanosPerSec) .ethSigned txBytes caller s.chain).2 }

def submitIcTx (env : Env T) (now : Nat) (caller : Principal) (tx : IcSyntheticTxInput)
    (s : GatewayState T) : Option (GatewayState T) :=
  if caller.bytes = [] ∨ caller = env.canisterSelf.principal then none
  else some { s with chain := (submitIcTxInput env.crypto (evm env.crypto env.revm env.trie)
    (now / nanosPerSec) caller env.canisterSelf.principal tx s.chain).2 }

def ledgerExecutes (env : Env T) (i : Nat) (refusal : Option String) (s : GatewayState T) :
    Option (GatewayState T) :=
  (DedupLedger.execute env.canisterSelf.principal env.window refusal s.ledgers s.calls i).map
    (fun r => { s with ledgers := r.1, calls := r.2 })

def updateLedger (s : GatewayState T) (ledger : Principal)
    (f : DedupLedger.Ledger Principal → DedupLedger.Ledger Principal) : GatewayState T :=
  { s with ledgers := Function.update s.ledgers ledger (f (s.ledgers ledger)) }

end GatewayState

open GatewayState

def perform (env : Env T) : Action → GatewayState T → Option (GatewayState T)
  | .submitWrapRequest now gasPrice caller args => submitWrapRequest env now gasPrice caller args
  | .submitNativeDeposit now caller args => submitNativeDeposit env now caller args
  | .wrapWorkerTick now => wrapWorkerTick env now
  | .resumeWrap now i reply => resumeWrap env now i reply
  | .recoverFailedWrap now id => recoverFailedWrap env now id
  | .retryNativeDeposit _ id => retryNativeDeposit id
  | .repairStaleOperations now => fun s => some (repairStaleOperations now s)
  | .postUpgrade now config => fun s => some (postUpgrade now config s)
  | .setFeePolicy _ policy => fun s => some { s with wrapFeePolicy := some policy }
  | .unwrapDispatchTick now => unwrapDispatchTick env now
  | .resumeDispatch now i reply => resumeDispatch env now i reply
  | .retryUnwrapDispatch now id => retryUnwrapDispatch now id
  | .dispatchUnwrapRequest now id assetId amount recipient => fun s =>
      some (s.insertUnwrapDispatchRequest id (.new assetId amount recipient now))
  | .submitTx now txBytes caller => fun s => some (submitTx env now txBytes caller s)
  | .submitIcTx now caller tx => submitIcTx env now caller tx
  | .miningTick now call => miningTick env call now
  | .ledgerExecutes _ i refusal => ledgerExecutes env i refusal
  | .ledgerFee _ ledger fee => fun s => some (s.updateLedger ledger (fun l => { l with fee := fee }))
  | .ledgerClock _ ledger elapsed => fun s =>
      some (s.updateLedger ledger (fun l => { l with now := l.now + elapsed }))
  | .ledgerReceives _ ledger amount => fun s =>
      some (s.updateLedger ledger (fun l => { l with balance := l.balance + amount }))

inductive Run (env : Env T) (allowed : GatewayState T → Action → Prop) (s₀ : GatewayState T) : GatewayState T → Prop
  | start : Run env allowed s₀ s₀
  | step {s t : GatewayState T} {a : Action} (run : Run env allowed s₀ s) (ok : allowed s a)
      (clock : 0 < a.now) (done : perform env a s = some t) : Run env allowed s₀ t

theorem run_invariant {env : Env T} {allowed : GatewayState T → Action → Prop} {s₀ : GatewayState T}
    (inv : GatewayState T → Prop) (start : inv s₀)
    (step : ∀ s t a, inv s → allowed s a → 0 < a.now → perform env a s = some t → inv t)
    {s : GatewayState T} (run : Run env allowed s₀ s) : inv s := by
  induction run with
  | start => exact start
  | step _ ok clock done ih => exact step _ _ _ ih ok clock done

def performAll (env : Env T) : List Action → GatewayState T → Option (GatewayState T)
  | [], s => some s
  | a :: actions, s => (perform env a s).bind (performAll env actions)

theorem run_of_performAll {env : Env T} {allowed : GatewayState T → Action → Prop}
    {actions : List Action} {s₀ s t : GatewayState T} (run : Run env allowed s₀ s)
    (clock : ∀ a ∈ actions, 0 < a.now) (ok : ∀ a ∈ actions, ∀ s, allowed s a)
    (h : performAll env actions s = some t) : Run env allowed s₀ t := by
  induction actions generalizing s with
  | nil =>
      obtain rfl := Option.some.inj h
      exact run
  | cons a actions ih =>
      obtain ⟨u, hstep, hrest⟩ := Option.bind_eq_some_iff.mp h
      have hrun : Run env allowed s₀ u := run.step (ok a (by simp) s) (clock a (by simp)) hstep
      exact ih hrun (fun b hb => clock b (List.mem_cons_of_mem a hb))
        (fun b hb => ok b (List.mem_cons_of_mem a hb)) hrest

theorem run_of_any (env : Env T) {allowed : GatewayState T → Action → Prop} (actions : List Action)
    (s : GatewayState T) (p : GatewayState T → Bool) (clock : ∀ a ∈ actions, 0 < a.now)
    (ok : ∀ a ∈ actions, ∀ s, allowed s a) (h : (performAll env actions s).any p = true) : ∃ t, Run env allowed s t ∧ p t = true := by
  obtain ⟨t, ht, hp⟩ := (Option.any_eq_true _ _).mp h
  exact ⟨t, run_of_performAll .start clock ok ht, hp⟩

end Kasane.Gateway
