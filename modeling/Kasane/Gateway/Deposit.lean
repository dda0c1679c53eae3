import Kasane.Gateway.Wrap

namespace Kasane.Gateway

open BigEndian Codec Word Chain Exec
open WrapStoredRequest

variable {T : Type}

def deriveNativeDepositRequestId (c : Crypto) (fromOwner depositId : Bytes) : TxId :=
  c.keccak256 ("kasane.native.deposit.v2".toUTF8.toList ++
    (hashLenPrefixed fromOwner ++ hashLenPrefixed depositId))

structure SubmitNativeDepositArgs where
  depositId : ByteArr 32
  amountE8s : Nat
  evmRecipient : Address
  maxFeeE8s : BitVec 128
  feeLedgerCanister : Principal

def nativeDepositAmountWei (amountE8s : Nat) : Except String Nat :=
  if amountE8s > u128Max ∨ amountE8s * weiPerE8s > u128Max then .error "arg.amount_out_of_range"
  else .ok (amountE8s * weiPerE8s)

def newNativeDepositRequest (flow : DepositFlow) (policy : FeePolicy) (maxFeeE8s : BitVec 128)
    (now : Nat) : WrapStoredRequest :=
  sanitizeWrapRequest
    { caller := flow.caller
      assetId := flow.nativeLedger
      amount := flow.amount
      evmRecipient := flow.evmRecipient
      gasLimit := 0
      feeLedgerCanister := policy.feeLedgerCanister
      maxFeeE8s := maxFeeE8s
      quotedGasPriceWei := 0
      feeCreatedAtTime := now
      pullCreatedAtTime := now
      withdrawCreatedAtTime := 0
      result := .new .running (.ofNat 128 policy.cycleFeeE8s.toNat) 0 now }

def depositMatches (flow : DepositFlow) (existing : WrapStoredRequest) : Bool :=
  decide (existing.caller = flow.caller ∧ existing.amount = flow.amount ∧
    existing.evmRecipient = flow.evmRecipient)

def depositAnswered (existing : WrapStoredRequest) : Bool :=
  decide (existing.result.status = .succeeded) && existing.result.feeLedgerTxId.isSome &&
    existing.result.chargedFeeE8s.isSome

def openNativeDeposit (s : GatewayState T) (id : TxId) (flow : DepositFlow) (policy : FeePolicy)
    (maxFeeE8s : BitVec 128) (now : Nat) : Option WrapStoredRequest :=
  match s.wrapRequests.get id with
  | none => some (newNativeDepositRequest flow policy maxFeeE8s now)
  | some existing =>
      if depositMatches flow existing = false then none
      else if depositAnswered existing then none
      else some existing

def creditAccount (db : RevmStableDb) (recipient : Address) (amountWei : Nat) : Option RevmStableDb :=
  let account := (db.accounts.get recipient).getD ⟨0, 0, zeroArr 32⟩
  if account.balance + amountWei > u256Max then none
  else some { db with
    accounts := db.accounts.insert recipient { account with balance := account.balance + amountWei } }

namespace GatewayState

def creditNativeDeposit (s : GatewayState T) (id : TxId) (recipient : Address) (amountWei : Nat) :
    Except String Unit × GatewayState T :=
  if amountWei > u128Max then (.error "native_deposit.mint_overflow", s)
  else
    match s.nativeCreditRecords.get id with
    | some existing =>
        if existing = ⟨recipient, amountWei⟩ then (.ok (), s)
        else (.error "native_deposit.idempotency_mismatch", s)
    | none =>
        match creditAccount s.chain.world.db recipient amountWei with
        | none => (.error "native_deposit.mint_overflow", s)
        | some db => (.ok (),
            { s with
              chain := { s.chain with world := { s.chain.world with db := db } }
              nativeCreditRecords := s.nativeCreditRecords.insert id ⟨recipient, amountWei⟩
              credits := s.credits ++ [⟨id, recipient, amountWei,
                (s.wrapRequests.get id).bind (fun req => req.result.pullLedgerTxId)⟩] })

def finalizeNativeDepositCredit (s : GatewayState T) (id : TxId) (now : Nat) (flow : DepositFlow) : GatewayState T :=
  let credited := s.creditNativeDeposit id flow.evmRecipient flow.amountWei
  credited.2.updateRequest id (WrapStoredRequest.finalizeNativeDepositCredit id credited.1 now)

def depositFinal (s : GatewayState T) (id : TxId) (now : Nat) (flow : DepositFlow)
    (req : WrapStoredRequest) : GatewayState T :=
  (if req.result.mintTxId = none ∨ req.result.status ≠ .succeeded then
    s.finalizeNativeDepositCredit id now flow
  else s).clearWrapPendingSubmission id

def depositFromPull (env : Env T) (s : GatewayState T) (id : TxId) (now : Nat) (flow : DepositFlow)
    (req : WrapStoredRequest) : GatewayState T :=
  if req.result.pullLedgerTxId = none then
    (s.call flow.nativeLedger.principal (icrc2TransferFrom env flow.caller flow.amount
      (requestMemo env.crypto id .pull) req.pullCreatedAtTime) (.pull id)).suspend id
        (.depositPull s.calls.length flow)
  else s.depositFinal id now flow req

def submitNativeDeposit (env : Env T) (now : Nat) (who : Principal)
    (args : SubmitNativeDepositArgs) (s : GatewayState T) : Option (GatewayState T) := do
  if who.bytes = anonymousPrincipal then none
  let caller ← StoredPrincipal.ofPrincipal who
  if args.amountE8s ≥ 2 ^ 256 ∨ args.amountE8s = 0 then none
  let amountWei ← (nativeDepositAmountWei args.amountE8s).toOption
  let policy ← s.wrapFeePolicy
  let nativeLedger ← s.wrapNativeLedgerCanister
  if policy.feeLedgerCanister.principal ≠ args.feeLedgerCanister then none
  if policy.cycleFeeE8s.toNat > args.maxFeeE8s.toNat then none
  let id := deriveNativeDepositRequestId env.crypto caller.bytes args.depositId.toList
  let flow : DepositFlow := ⟨caller, nativeLedger, args.amountE8s, amountWei, args.evmRecipient⟩
  let req ← openNativeDeposit s id flow policy args.maxFeeE8s now
  if (s.wrapPendingSubmissions.get id).isSome then none
  let reserved := s.reserve id caller req
  some (if req.result.feeLedgerTxId = none then
    (reserved.collectFee env id caller policy.feeLedgerCanister policy.cycleFeeE8s.toNat req).suspend id
      (.depositFee reserved.calls.length flow)
  else reserved.depositFromPull env id now flow req)

def failDeposit (s : GatewayState T) (id : TxId) (now : Nat) (code : String) : GatewayState T :=
  (s.updateRequest id (recordWrapRequestFailure code false now)).clearWrapPendingSubmission id

def finishDepositFee (env : Env T) (s : GatewayState T) (id : TxId) (now : Nat) (flow : DepositFlow)
    (fee : Except String LedgerTxId) : GatewayState T :=
  match fee with
  | .error code => s.failDeposit id now ("fee." ++ code)
  | .ok feeLedgerTxId =>
      let recorded := s.updateRequest id (recordNativeDepositFeeCollected feeLedgerTxId now)
      match recorded.wrapRequests.get id with
      | none => recorded
      | some req => recorded.depositFromPull env id now flow req

def finishDepositPull (s : GatewayState T) (id : TxId) (now : Nat) (flow : DepositFlow)
    (pull : Except String LedgerTxId) : GatewayState T :=
  match pull with
  | .error code => s.failDeposit id now code
  | .ok pullLedgerTxId =>
      let recorded := s.updateRequest id (recordNativeDepositPulled pullLedgerTxId now)
      match recorded.wrapRequests.get id with
      | none => recorded
      | some req => recorded.depositFinal id now flow req

def retryNativeDeposit (id : TxId) (s : GatewayState T) : Option (GatewayState T) := do
  let old ← s.wrapRequests.get id
  let req ← old.retryNativeDeposit.toOption
  let running : GatewayState T := { s with wrapRequests := s.wrapRequests.insert id req }
  let credited : Except String Unit × GatewayState T := match nativeDepositAmountWei req.amount with
    | .error code => (.error code, running)
    | .ok amountWei => running.creditNativeDeposit id req.evmRecipient amountWei
  some (credited.2.updateRequest id (finishRetry id credited.1))

end GatewayState

end Kasane.Gateway
