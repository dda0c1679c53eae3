import Kasane.Gateway.Run
import Mathlib.Data.List.Sort

namespace Kasane.Gateway

open BigEndian Codec Word Chain Exec
open Precompile (icpUpdateIntentFromLog isAscii maxQueryMethodLen)

variable {T : Type}

def maxIcpUpdateRequests : Nat := 10000

def icpUpdateDecodeFailureCode : String := "stable.decode.icp_update_request"

def icpUpdateReplyOmittedTooLarge : String := "ic_update.reply_omitted_too_large"

inductive IcpUpdateRequestStatus where
  | queued
  | dispatching
  | dispatched
  | dispatchFailed
  | dispatchUncertain
deriving DecidableEq, Repr

def IcpUpdateRequestStatus.completed : IcpUpdateRequestStatus → Bool
  | .dispatched | .dispatchFailed | .dispatchUncertain => true
  | .queued | .dispatching => false

structure IcpUpdateDispatchRequest where
  requestId : TxId
  txId : TxId
  blockNumber : UInt64
  txIndex : UInt32
  logIndex : UInt32
  txKind : TxKind
  evmSender : Address
  icCaller : Option Principal
  target : Bytes
  method : Bytes
  arg : Bytes
  status : IcpUpdateRequestStatus
  reply : Option Bytes
  errorCode : Option String
  updatedAt : Nat
  callStartedAtTime : Nat
deriving DecidableEq

structure IcpUpdateEnvelopeV1 where
  version : Nat
  chainId : Nat
  requestId : TxId
  txId : TxId
  blockNumber : UInt64
  txIndex : UInt32
  logIndex : UInt32
  txKind : TxKind
  evmSender : Address
  icCaller : Option Principal
  arg : Bytes
deriving DecidableEq

structure IcpUpdateCall where
  target : Bytes
  method : Bytes
  envelope : IcpUpdateEnvelopeV1
deriving DecidableEq

inductive IcpUpdateResponse where
  | replied (reply : Bytes)
  | failed (uncertain : Bool) (detail : String)

structure AppliedIcpUpdateDispatchOutcome where
  status : IcpUpdateRequestStatus
  reply : Option Bytes
  errorCode : Option String

def icpUpdateSuccessOutcome (reply : Bytes) : AppliedIcpUpdateDispatchOutcome :=
  if reply.length > Receipt.maxReturnData then ⟨.dispatched, none, some icpUpdateReplyOmittedTooLarge⟩
  else ⟨.dispatched, some reply, none⟩

def IcpUpdateResponse.outcome : IcpUpdateResponse → AppliedIcpUpdateDispatchOutcome
  | .replied reply => icpUpdateSuccessOutcome reply
  | .failed uncertain detail =>
      ⟨if uncertain then .dispatchUncertain else .dispatchFailed, none,
        some ("ic_update.call_failed:" ++ detail)⟩

namespace IcpUpdateDispatchRequest

def isDecodeFailed (req : IcpUpdateDispatchRequest) : Bool :=
  decide (req.errorCode = some icpUpdateDecodeFailureCode)

def markDispatching (now : Nat) (req : IcpUpdateDispatchRequest) : IcpUpdateDispatchRequest :=
  { req with
    status := .dispatching
    updatedAt := now
    callStartedAtTime := if req.callStartedAtTime = 0 then now else req.callStartedAtTime }

def quarantine (now : Nat) (req : IcpUpdateDispatchRequest) : IcpUpdateDispatchRequest :=
  { req with
    updatedAt := now
    status := .dispatchFailed
    reply := none
    errorCode := some icpUpdateDecodeFailureCode }

def finalizeIcpUpdateDispatchAttempt (now : Nat) (applied : AppliedIcpUpdateDispatchOutcome)
    (req : IcpUpdateDispatchRequest) : IcpUpdateDispatchRequest :=
  { req with
    updatedAt := now
    reply := applied.reply
    status := applied.status
    errorCode := applied.errorCode.map clampErrorCode }

def markUncertain (now : Nat) (req : IcpUpdateDispatchRequest) : IcpUpdateDispatchRequest :=
  { req with
    status := .dispatchUncertain
    updatedAt := now
    errorCode := some "ic_update.dispatch_uncertain" }

def repairStale (now : Nat) (req : IcpUpdateDispatchRequest) : IcpUpdateDispatchRequest :=
  if req.status = .dispatching ∧ req.updatedAt ≤ now - staleOperationNanos then req.markUncertain now
  else req

def recoverAfterUpgrade (now : Nat) (req : IcpUpdateDispatchRequest) : IcpUpdateDispatchRequest :=
  if req.status = .dispatching then req.markUncertain now else req

def upgradeRequeues (req : IcpUpdateDispatchRequest) : Bool := decide (req.status = .queued)

def envelope (req : IcpUpdateDispatchRequest) : IcpUpdateEnvelopeV1 where
  version := 1
  chainId := Chain.chainId
  requestId := req.requestId
  txId := req.txId
  blockNumber := req.blockNumber
  txIndex := req.txIndex
  logIndex := req.logIndex
  txKind := req.txKind
  evmSender := req.evmSender
  icCaller := req.icCaller
  arg := req.arg

end IcpUpdateDispatchRequest

structure IcpGatewayState (T : Type) where
  gateway : GatewayState T
  icpUpdateRequests : OrdMap TxId IcpUpdateDispatchRequest
  icpUpdateDispatchQueue : SeqQueue TxId
  icpUpdatePrecompileAllowlist : List Bytes
  icpUpdateTasks : List TxId
  icpUpdateCalls : List IcpUpdateCall

def precompileAllowKey (target method : Bytes) : Bytes :=
  UInt8.ofNat target.length :: (target ++ method)

def getTxEnvelope {W : Type} (s : StableState W) (id : TxId) : Option StoredTxBytes :=
  (s.txStore.get id).filter (fun envelope =>
    decide (envelope.raw ≠ [] ∧ envelope.version = storedTxVersion))

def decodeTxViewFrom (c : Crypto) (envelope : StoredTxBytes) : Option Address :=
  (decodeTx c envelope.kind (envelope.callerEvm.getD (zeroArr 20)) envelope.raw).map TxEnv.caller

namespace IcpGatewayState

def init (world : World T) (config : WrapConfig) (ledgers : Principal → DedupLedger.Ledger Principal)
    (allowlist : List Bytes) : IcpGatewayState T where
  gateway := GatewayState.init world config ledgers
  icpUpdateRequests := .empty
  icpUpdateDispatchQueue := .empty
  icpUpdatePrecompileAllowlist := allowlist
  icpUpdateTasks := []
  icpUpdateCalls := []

def removeIcpUpdateRequest (s : IcpGatewayState T) (id : TxId) : IcpGatewayState T :=
  { s with
    icpUpdateRequests := s.icpUpdateRequests.remove id
    icpUpdateDispatchQueue := s.icpUpdateDispatchQueue.drop (fun queued => decide (queued = id)) }

def trimCompleted : Nat → List (Nat × TxId) → IcpGatewayState T → IcpGatewayState T
  | _, [], s => s
  | remaining, (_, id) :: rest, s =>
      if remaining ≤ maxIcpUpdateRequests then s
      else trimCompleted (remaining - 1) rest (s.removeIcpUpdateRequest id)

def completedIcpUpdateRequests (s : IcpGatewayState T) : List (Nat × TxId) :=
  ((s.icpUpdateRequests.entries.filter (fun e => e.2.status.completed)).map
    (fun e => (e.2.updatedAt, e.1))).insertionSort
      (fun a b => a.1 < b.1 ∨ (a.1 = b.1 ∧ a.2 ≤ b.2))

def trimIcpUpdateRequests (s : IcpGatewayState T) : IcpGatewayState T :=
  if s.icpUpdateRequests.len ≤ maxIcpUpdateRequests then s
  else trimCompleted s.icpUpdateRequests.len s.completedIcpUpdateRequests s

def recordIcpUpdateRequest (c : Crypto) (now : Nat) (txId : TxId) (receipt : Receipt.ReceiptLike)
    (envelope : StoredTxBytes) (evmSender : Address) (s : IcpGatewayState T)
    (log : Receipt.LogEntry × Nat) : IcpGatewayState T :=
  match icpUpdateIntentFromLog c.keccak256 log.1, deriveLogRequestId c txId log.2 with
  | some intent, some id =>
      if (s.icpUpdateRequests.get id).isSome then s
      else trimIcpUpdateRequests { s with
        icpUpdateRequests := s.icpUpdateRequests.insert id
          { requestId := id
            txId := txId
            blockNumber := receipt.blockNumber
            txIndex := receipt.txIndex
            logIndex := (u32TryFrom log.2).getD (UInt32.ofNat u32Max)
            txKind := envelope.kind
            evmSender := evmSender
            icCaller := if envelope.kind = .icSynthetic then some envelope.callerPrincipal else none
            target := intent.target
            method := intent.method
            arg := intent.arg
            status := .queued
            reply := none
            errorCode := none
            updatedAt := now
            callStartedAtTime := 0 }
        icpUpdateDispatchQueue := s.icpUpdateDispatchQueue.push id }
  | _, _ => s

def recordIcpUpdateRequestsFromTx (c : Crypto) (now : Nat) (s : IcpGatewayState T) (txId : TxId) :
    IcpGatewayState T :=
  match getReceipt s.gateway.chain txId, getTxEnvelope s.gateway.chain txId with
  | some receipt, some envelope =>
      match decodeTxViewFrom c envelope with
      | none => s
      | some evmSender =>
          receipt.logs.zipIdx.foldl (recordIcpUpdateRequest c now txId receipt envelope evmSender) s
  | _, _ => s

def recordIcpUpdateRequestsFromBlock (c : Crypto) (now : Nat) (txIds : List TxId)
    (s : IcpGatewayState T) : IcpGatewayState T :=
  txIds.foldl (recordIcpUpdateRequestsFromTx c now) s

def isUpdatePrecompileAllowed (s : IcpGatewayState T) (target method : Bytes) : Bool :=
  if target = [] ∨ target.length > Precompile.maxPrincipalLen ∨ method = [] ∨
    method.length > maxQueryMethodLen ∨ isAscii method = false then false
  else decide (precompileAllowKey target method ∈ s.icpUpdatePrecompileAllowlist)

def finalize (s : IcpGatewayState T) (id : TxId) (now : Nat)
    (applied : AppliedIcpUpdateDispatchOutcome) : IcpGatewayState T :=
  { s with icpUpdateRequests :=
    s.icpUpdateRequests.modify id (.finalizeIcpUpdateDispatchAttempt now applied) }

def dispatchIcpUpdateRequestInternal (s : IcpGatewayState T) (id : TxId) (now : Nat)
    (req : IcpUpdateDispatchRequest) : IcpGatewayState T :=
  if s.isUpdatePrecompileAllowed req.target req.method = false then
    s.finalize id now ⟨.dispatchFailed, none, some "ic_update.allowlist_miss"⟩
  else { s with
    icpUpdateCalls := s.icpUpdateCalls ++ [⟨req.target, req.method, req.envelope⟩]
    icpUpdateTasks := s.icpUpdateTasks ++ [id] }

def icpUpdateDispatchTick (now : Nat) (s : IcpGatewayState T) : Option (IcpGatewayState T) :=
  match s.icpUpdateDispatchQueue.pop with
  | none => none
  | some (none, rest) => some { s with icpUpdateDispatchQueue := rest }
  | some (some id, rest) =>
      let popped : IcpGatewayState T := { s with icpUpdateDispatchQueue := rest }
      match s.icpUpdateRequests.get id with
      | none => some popped
      | some req =>
          if req.isDecodeFailed then
            some { popped with icpUpdateRequests := s.icpUpdateRequests.insert id (req.quarantine now) }
          else
            let dispatching := req.markDispatching now
            some (({ popped with icpUpdateRequests := s.icpUpdateRequests.insert id dispatching }
              : IcpGatewayState T).dispatchIcpUpdateRequestInternal id now dispatching)

def resumeIcpUpdate (now i : Nat) (response : IcpUpdateResponse) (s : IcpGatewayState T) :
    Option (IcpGatewayState T) :=
  s.icpUpdateTasks[i]?.map (fun id =>
    ({ s with icpUpdateTasks := s.icpUpdateTasks.eraseIdx i } : IcpGatewayState T).finalize id now
      response.outcome)

def repairIcpUpdates (now : Nat) (s : IcpGatewayState T) : IcpGatewayState T :=
  { s with icpUpdateRequests :=
      s.icpUpdateRequests.map (IcpUpdateDispatchRequest.repairStale now) }

def recoverIcpUpdateDispatchStateAfterUpgrade (now : Nat) (s : IcpGatewayState T) :
    IcpGatewayState T :=
  { s with
    icpUpdateTasks := []
    icpUpdateRequests := s.icpUpdateRequests.map (IcpUpdateDispatchRequest.recoverAfterUpgrade now)
    icpUpdateDispatchQueue := s.icpUpdateDispatchQueue.requeue
      (GatewayState.keysWhere IcpUpdateDispatchRequest.upgradeRequeues s.icpUpdateRequests) }

def producedTxIds (env : Env T) (call : CallEnv) (chain : StableState (World T)) : List TxId :=
  match produceBlock env.crypto (evm env.crypto env.revm env.trie) call maxTxsPerBlock chain with
  | some (.ok outcome, _) => outcome.block.txIds
  | _ => []

def followGateway (env : Env T) (s : IcpGatewayState T) (gateway : GatewayState T) :
    Action → IcpGatewayState T
  | .miningTick now call => recordIcpUpdateRequestsFromBlock env.crypto now
      (producedTxIds env call s.gateway.chain) { s with gateway := gateway }
  | .repairStaleOperations now => repairIcpUpdates now { s with gateway := gateway }
  | .postUpgrade now _ =>
      recoverIcpUpdateDispatchStateAfterUpgrade now { s with gateway := gateway }
  | _ => { s with gateway := gateway }

end IcpGatewayState

inductive IcpAction where
  | gateway (a : Action)
  | icpUpdateDispatchTick (now : Nat)
  | resumeIcpUpdate (now i : Nat) (response : IcpUpdateResponse)
  | setIcpUpdatePrecompileAllowlist (allowlist : List Bytes)

open IcpGatewayState

def performIcp (env : Env T) : IcpAction → IcpGatewayState T → Option (IcpGatewayState T)
  | .gateway a => fun s => (perform env a s.gateway).map (fun gateway => s.followGateway env gateway a)
  | .icpUpdateDispatchTick now => icpUpdateDispatchTick now
  | .resumeIcpUpdate now i response => resumeIcpUpdate now i response
  | .setIcpUpdatePrecompileAllowlist allowlist => fun s =>
      some { s with icpUpdatePrecompileAllowlist := allowlist }

inductive IcpRun (env : Env T) (s₀ : IcpGatewayState T) : IcpGatewayState T → Prop
  | start : IcpRun env s₀ s₀
  | step {s t : IcpGatewayState T} {a : IcpAction} (run : IcpRun env s₀ s)
      (done : performIcp env a s = some t) : IcpRun env s₀ t

def performIcpAll (env : Env T) : List IcpAction → IcpGatewayState T → Option (IcpGatewayState T)
  | [], s => some s
  | a :: actions, s => (performIcp env a s).bind (performIcpAll env actions)

theorem icpRun_of_performIcpAll {env : Env T} {actions : List IcpAction} {s₀ s t : IcpGatewayState T}
    (run : IcpRun env s₀ s) (h : performIcpAll env actions s = some t) : IcpRun env s₀ t := by
  induction actions generalizing s with
  | nil =>
      obtain rfl := Option.some.inj h
      exact run
  | cons a actions ih =>
      obtain ⟨u, hstep, hrest⟩ := Option.bind_eq_some_iff.mp h
      exact ih (run.step hstep) hrest

end Kasane.Gateway
