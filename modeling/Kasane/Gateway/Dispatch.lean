import Kasane.Gateway.Deposit

namespace Kasane.Gateway

open BigEndian Codec Word Chain Exec

variable {T : Type}

def nativeWithdrawAssetMarker : Bytes := "kasane.native.icp".toUTF8.toList

def unwrapDecodeFailureCode : String := "stable.decode.unwrap_request"

def unwrapQuarantineError : String := "quarantine.decode.unwrap_request"

namespace UnwrapDispatchRequest

def new (assetId : Bytes) (amount : Nat) (recipient : Bytes) (now : Nat) : UnwrapDispatchRequest where
  assetId := assetId
  amount := amount
  recipient := recipient
  status := .queued
  ledgerTxId := none
  errorCode := none
  updatedAt := now
  transferCreatedAtTime := 0

def isDecodeFailedUnwrapRequest (req : UnwrapDispatchRequest) : Bool :=
  decide (req.errorCode = some unwrapDecodeFailureCode)

def shouldSkipDispatchUnwrapRequest (req : UnwrapDispatchRequest) : Bool :=
  decide (req.errorCode = some unwrapDecodeFailureCode ∨ req.errorCode = some unwrapQuarantineError)

def isNativeWithdrawDispatchRequest (req : UnwrapDispatchRequest) : Bool :=
  decide (req.assetId = nativeWithdrawAssetMarker)

def createdAt (now : Nat) (req : UnwrapDispatchRequest) : Nat :=
  if req.transferCreatedAtTime = 0 then now else req.transferCreatedAtTime

def markDispatching (now : Nat) (req : UnwrapDispatchRequest) : UnwrapDispatchRequest :=
  { req with
    status := .dispatching
    updatedAt := now
    transferCreatedAtTime := req.createdAt now }

def quarantine (now : Nat) (req : UnwrapDispatchRequest) : UnwrapDispatchRequest :=
  { req with
    updatedAt := now
    status := .dispatchFailed
    ledgerTxId := none
    errorCode := some unwrapQuarantineError }

def quarantineDecodeFailed (now : Nat) (req : UnwrapDispatchRequest) : UnwrapDispatchRequest :=
  if req.isDecodeFailedUnwrapRequest then req.quarantine now else req

def finalizeUnwrapDispatchAttempt (now : Nat) (applied : Except String LedgerTxId)
    (req : UnwrapDispatchRequest) : UnwrapDispatchRequest :=
  match applied with
  | .ok ledgerTxId => { req with
      updatedAt := now
      ledgerTxId := some ledgerTxId
      status := .dispatched
      errorCode := none }
  | .error code => { req with
      updatedAt := now
      ledgerTxId := none
      status := .dispatchFailed
      errorCode := some (clampErrorCode code) }

def retry (now : Nat) (req : UnwrapDispatchRequest) : UnwrapDispatchRequest :=
  { req with status := .queued, errorCode := none, updatedAt := now }

def dispatchStale (now : Nat) (req : UnwrapDispatchRequest) : Bool :=
  decide (req.status = .dispatching ∧ req.updatedAt ≤ now - staleOperationNanos)

def repairStale (now : Nat) (req : UnwrapDispatchRequest) : UnwrapDispatchRequest :=
  if req.dispatchStale now then
    { req with
      status := .queued
      updatedAt := now
      transferCreatedAtTime := req.createdAt now }
  else req

def recoverAfterUpgrade (now : Nat) (req : UnwrapDispatchRequest) : UnwrapDispatchRequest :=
  if req.status = .dispatching then { req with status := .queued, updatedAt := now } else req

def upgradeRequeues (req : UnwrapDispatchRequest) : Bool :=
  decide (req.status = .queued ∨ req.status = .dispatching)

end UnwrapDispatchRequest

inductive PopError where
  | queueMissing (seq : Nat)
  | requestMissing (id : TxId)
  | quarantined (id : TxId)

def grossTransferReceiveAmount (amount fee : Nat) (codePrefix : String) : Except String Nat :=
  if amount > u128Max then .error (codePrefix ++ ".amount_out_of_range")
  else if fee < amount then .ok (amount - fee)
  else .error (codePrefix ++ ".amount_not_above_fee")

def nativeWithdrawGrossTransferAmount (amount fee : Nat) : Except String Nat :=
  grossTransferReceiveAmount amount fee "native_withdraw"

namespace GatewayState

def insertUnwrapDispatchRequest (s : GatewayState T) (id : TxId) (req : UnwrapDispatchRequest) : GatewayState T :=
  if (s.unwrapRequests.get id).isSome then s
  else { s with
    unwrapRequests := s.unwrapRequests.insert id req
    unwrapDispatchQueue := s.unwrapDispatchQueue.push id }

def finishDispatch (s : GatewayState T) (id : TxId) (now : Nat) (applied : Except String LedgerTxId) : GatewayState T :=
  { s with unwrapRequests :=
    s.unwrapRequests.modify id (UnwrapDispatchRequest.finalizeUnwrapDispatchAttempt now applied) }

def sendPayout (env : Env T) (s : GatewayState T) (id : TxId) (ledger recipient : StoredPrincipal)
    (amount : Nat) (req : UnwrapDispatchRequest) : GatewayState T :=
  (s.call ledger.principal (icrc1Transfer env recipient amount (requestMemo env.crypto id .unwrap)
    req.transferCreatedAtTime) (.payout id)).suspendDispatch id (.transfer s.calls.length)

def dispatchLedger (s : GatewayState T) (req : UnwrapDispatchRequest) : Except String StoredPrincipal :=
  if req.isNativeWithdrawDispatchRequest then
    match s.wrapNativeLedgerCanister with
    | some ledger => .ok ledger
    | none => .error "wrap_config.unconfigured"
  else
    match StoredPrincipal.ofBytes req.assetId with
    | some ledger => .ok ledger
    | none => .error (if req.assetId = [] then "wrap_config.unconfigured" else "arg.principal_invalid")

def dispatchUnwrapRequestInternal (env : Env T) (s : GatewayState T) (id : TxId) (now : Nat)
    (req : UnwrapDispatchRequest) : GatewayState T :=
  match s.dispatchLedger req with
  | .error code => s.finishDispatch id now (.error code)
  | .ok ledger =>
      match StoredPrincipal.ofBytes req.recipient with
      | none => s.finishDispatch id now
          (.error (if req.recipient = [] then "wrap_config.unconfigured" else "arg.principal_invalid"))
      | some recipient =>
          if req.isNativeWithdrawDispatchRequest then
            s.suspendDispatch id (.fee ledger recipient req)
          else s.sendPayout env id ledger recipient req.amount req

def popNextDispatchRequest (now : Nat) (s : GatewayState T) :
    Option (Except PopError (TxId × UnwrapDispatchRequest) × GatewayState T) :=
  match s.unwrapDispatchQueue.pop with
  | none => none
  | some (none, rest) =>
      some (.error (.queueMissing s.unwrapDispatchQueue.head), { s with unwrapDispatchQueue := rest })
  | some (some id, rest) =>
      let popped : GatewayState T := { s with unwrapDispatchQueue := rest }
      match s.unwrapRequests.get id with
      | none => some (.error (.requestMissing id), popped)
      | some req =>
          if req.shouldSkipDispatchUnwrapRequest then
            some (.error (.quarantined id),
              { popped with unwrapRequests := s.unwrapRequests.insert id (req.quarantine now) })
          else
            some (.ok (id, req.markDispatching now),
              { popped with unwrapRequests := s.unwrapRequests.insert id (req.markDispatching now) })

def unwrapDispatchTick (env : Env T) (now : Nat) (s : GatewayState T) : Option (GatewayState T) :=
  match s.unwrapDispatchQueue.pop with
  | none => none
  | some (none, rest) => some { s with unwrapDispatchQueue := rest }
  | some (some id, rest) =>
      let popped : GatewayState T := { s with unwrapDispatchQueue := rest }
      match s.unwrapRequests.get id with
      | none => some popped
      | some req =>
          if req.shouldSkipDispatchUnwrapRequest then
            some { popped with unwrapRequests := s.unwrapRequests.insert id (req.quarantine now) }
          else
            let dispatching := req.markDispatching now
            some (({ popped with unwrapRequests := s.unwrapRequests.insert id dispatching }
              : GatewayState T).dispatchUnwrapRequestInternal env id now dispatching)

def finishDispatchFee (env : Env T) (s : GatewayState T) (id : TxId) (now : Nat)
    (ledger recipient : StoredPrincipal) (req : UnwrapDispatchRequest) (fee : Except String (BitVec 128)) :
    GatewayState T :=
  match fee with
  | .error code => s.finishDispatch id now (.error code)
  | .ok fee =>
      match nativeWithdrawGrossTransferAmount req.amount fee.toNat with
      | .error code => s.finishDispatch id now (.error code)
      | .ok amount => s.sendPayout env id ledger recipient amount req

def retryUnwrapDispatch (now : Nat) (id : TxId) (s : GatewayState T) : Option (GatewayState T) := do
  let req ← s.unwrapRequests.get id
  if req.status ≠ .dispatchFailed then none
  some { s with
    unwrapRequests := s.unwrapRequests.insert id (req.retry now)
    unwrapDispatchQueue := s.unwrapDispatchQueue.push id }

def keysWhere {V : Type} (p : V → Bool) (m : OrdMap TxId V) : List TxId :=
  (m.entries.filter (fun e => p e.2)).map Prod.fst

def repairStaleOperations (now : Nat) (s : GatewayState T) : GatewayState T :=
  let settled := s.settleSubmittedWrapMintReceipts now
  { settled with
    wrapRequests := settled.wrapRequests.map (WrapStoredRequest.repairStale now)
    wrapQueue := requeue (keysWhere (WrapStoredRequest.runStale now) settled.wrapRequests)
      settled.wrapQueue
    unwrapRequests := settled.unwrapRequests.map (UnwrapDispatchRequest.repairStale now)
    unwrapDispatchQueue := settled.unwrapDispatchQueue.requeue
      (keysWhere (UnwrapDispatchRequest.dispatchStale now) settled.unwrapRequests) }

def applyWrapConfig (config : Option WrapConfig) (s : GatewayState T) : GatewayState T :=
  match config with
  | none => s
  | some config => { s with
      wrapFeePolicy := some config.feePolicy
      wrapFactoryAddress := some config.factoryAddress
      wrapNativeLedgerCanister := some config.nativeLedgerCanister
      wrapAllowedAssets := config.allowedAssets }

def quarantineDecodeFailedUnwrapRequests (now : Nat) (s : GatewayState T) : GatewayState T :=
  { s with
    unwrapRequests := s.unwrapRequests.map (UnwrapDispatchRequest.quarantineDecodeFailed now)
    unwrapDispatchQueue := s.unwrapDispatchQueue.drop
      (fun id => (s.unwrapRequests.get id).any UnwrapDispatchRequest.isDecodeFailedUnwrapRequest) }

-- the suspended calls are lost with the heap, what they already sent to a ledger is not
def postUpgrade (now : Nat) (config : Option WrapConfig) (s : GatewayState T) : GatewayState T :=
  let configured := (s.applyWrapConfig config).quarantineDecodeFailedUnwrapRequests now
  { configured with
    wrapTasks := []
    dispatchTasks := []
    unwrapRequests := configured.unwrapRequests.map (UnwrapDispatchRequest.recoverAfterUpgrade now)
    unwrapDispatchQueue := configured.unwrapDispatchQueue.requeue
      (keysWhere UnwrapDispatchRequest.upgradeRequeues configured.unwrapRequests)
    wrapRequests := s.wrapRequests.map WrapStoredRequest.recoverAfterUpgrade
    wrapQueue := requeue (keysWhere WrapStoredRequest.upgradeRequeues s.wrapRequests) s.wrapQueue }

end GatewayState

end Kasane.Gateway
