import Kasane.Gateway.State

namespace Kasane.Gateway

open BigEndian Codec Word Chain Exec
open WrapStoredRequest

variable {T : Type}

def gasPriceDenominatorBps : Nat := 10_000

def weiPerE8s : Nat := 10_000_000_000

def defaultBlockGasLimit : Nat := 12_000_000

def anonymousPrincipal : Bytes := [4]

def hashLenPrefixed (bytes : Bytes) : Bytes :=
  u32Bytes ((u32TryFrom bytes.length).getD (UInt32.ofNat u32Max)) ++ bytes

def deriveWrapRequestId (c : Crypto) (fromOwner assetId amount evmRecipient : Bytes)
    (evmNonce gasLimit : UInt64) : TxId :=
  c.keccak256 ("kasane.wrap.request.v1".toUTF8.toList ++ (hashLenPrefixed fromOwner ++
    (hashLenPrefixed assetId ++ (hashLenPrefixed amount ++ (hashLenPrefixed evmRecipient ++
      (u64Bytes evmNonce ++ u64Bytes gasLimit))))))

structure QuoteWrapRequestOk where
  chargedFeeE8s : Nat
  chargedGasPriceWei : Nat
  feeLedgerCanister : StoredPrincipal

def validWrapGasLimit (s : GatewayState T) (gasLimit : UInt64) : Bool :=
  let configured := s.chain.chainState.blockGasLimit
  decide (gasLimit ≠ 0 ∧
    gasLimit.toNat ≤ if configured = 0 then defaultBlockGasLimit else configured)

def quoteWrapRequestInner (s : GatewayState T) (gasPrice : Nat) (gasLimit : UInt64) :
    Option QuoteWrapRequestOk :=
  if validWrapGasLimit s gasLimit = false then none
  else
    s.wrapFeePolicy.map (fun policy =>
      let chargedGasPriceWei := saturatingAdd u128Max
        (saturatingMul u128Max gasPrice policy.gasPriceBufferBps.toNat)
          (gasPriceDenominatorBps - 1) / gasPriceDenominatorBps
      let gasFeeE8s := saturatingAdd u128Max
        (saturatingMul u128Max chargedGasPriceWei gasLimit.toNat) (weiPerE8s - 1) / weiPerE8s
      ⟨saturatingAdd u128Max gasFeeE8s policy.cycleFeeE8s.toNat, chargedGasPriceWei,
        policy.feeLedgerCanister⟩)

structure SubmitWrapRequestArgs where
  assetId : Principal
  amountE8s : Nat
  evmRecipient : Address
  evmNonce : UInt64
  gasLimit : UInt64
  maxFeeE8s : BitVec 128
  quotedGasPriceWei : BitVec 128
  feeLedgerCanister : Principal

structure NormalizedSubmitWrapRequest where
  requestId : TxId
  assetId : StoredPrincipal
  amount : Nat
  evmRecipient : Address
  gasLimit : UInt64
  maxFeeE8s : BitVec 128
  quotedGasPriceWei : BitVec 128
  feeLedgerCanister : StoredPrincipal

def normalizeSubmitWrapRequest (c : Crypto) (caller : StoredPrincipal)
    (args : SubmitWrapRequestArgs) : Option NormalizedSubmitWrapRequest :=
  if args.assetId.bytes = anonymousPrincipal then none
  else if args.amountE8s ≥ 2 ^ 256 ∨ args.amountE8s = 0 then none
  else
    match StoredPrincipal.ofPrincipal args.assetId, StoredPrincipal.ofPrincipal args.feeLedgerCanister with
    | some assetId, some feeLedgerCanister => some
        { requestId := deriveWrapRequestId c caller.bytes assetId.bytes (encode 32 args.amountE8s)
            args.evmRecipient.toList args.evmNonce args.gasLimit
          assetId := assetId
          amount := args.amountE8s
          evmRecipient := args.evmRecipient
          gasLimit := args.gasLimit
          maxFeeE8s := args.maxFeeE8s
          quotedGasPriceWei := args.quotedGasPriceWei
          feeLedgerCanister := feeLedgerCanister }
    | _, _ => none

def validateWrapQuoteWithinApproval (args : NormalizedSubmitWrapRequest)
    (quote : QuoteWrapRequestOk) : Bool :=
  decide (quote.feeLedgerCanister = args.feeLedgerCanister ∧
    quote.chargedFeeE8s ≤ args.maxFeeE8s.toNat ∧
      quote.chargedGasPriceWei ≤ args.quotedGasPriceWei.toNat)

def idempotencyMatches (args : NormalizedSubmitWrapRequest) (caller : StoredPrincipal)
    (existing : WrapStoredRequest) : Bool :=
  decide (existing.caller = caller ∧ existing.assetId = args.assetId ∧
    existing.amount = args.amount ∧ existing.evmRecipient = args.evmRecipient ∧
      existing.gasLimit = args.gasLimit ∧ existing.feeLedgerCanister = args.feeLedgerCanister ∧
        existing.maxFeeE8s = args.maxFeeE8s ∧ existing.quotedGasPriceWei = args.quotedGasPriceWei)

def newWrapRequest (args : NormalizedSubmitWrapRequest) (caller : StoredPrincipal)
    (quote : QuoteWrapRequestOk) (now : Nat) : WrapStoredRequest :=
  sanitizeWrapRequest
    { caller := caller
      assetId := args.assetId
      amount := args.amount
      evmRecipient := args.evmRecipient
      gasLimit := args.gasLimit
      feeLedgerCanister := args.feeLedgerCanister
      maxFeeE8s := args.maxFeeE8s
      quotedGasPriceWei := args.quotedGasPriceWei
      feeCreatedAtTime := now
      pullCreatedAtTime := now
      withdrawCreatedAtTime := 0
      result := .new .queued (.ofNat 128 quote.chargedFeeE8s) (.ofNat 128 quote.chargedGasPriceWei)
        now }

def openWrapRequest (s : GatewayState T) (args : NormalizedSubmitWrapRequest) (caller : StoredPrincipal)
    (quote : QuoteWrapRequestOk) (now : Nat) : Option WrapStoredRequest :=
  match s.wrapRequests.get args.requestId with
  | none => some (newWrapRequest args caller quote now)
  | some existing =>
      if idempotencyMatches args caller existing = false then none
      else if existing.result.feeLedgerTxId.isSome then none
      else some existing

namespace GatewayState

def reserve (s : GatewayState T) (id : TxId) (caller : StoredPrincipal) (req : WrapStoredRequest) : GatewayState T :=
  { s with
    wrapPendingSubmissions := s.wrapPendingSubmissions.insert id caller
    wrapRequests := s.wrapRequests.insert id req }

def collectFee (env : Env T) (s : GatewayState T) (id : TxId) (caller feeLedger : StoredPrincipal)
    (fee : Nat) (req : WrapStoredRequest) : GatewayState T :=
  s.call feeLedger.principal
    (icrc2TransferFrom env caller fee (requestMemo env.crypto id .fee) req.feeCreatedAtTime) (.fee id)

def submitWrapRequest (env : Env T) (now gasPrice : Nat) (who : Principal)
    (args : SubmitWrapRequestArgs) (s : GatewayState T) : Option (GatewayState T) := do
  if who.bytes = anonymousPrincipal then none
  let caller ← StoredPrincipal.ofPrincipal who
  let normalized ← normalizeSubmitWrapRequest env.crypto caller args
  if normalized.assetId.principal ∉ s.wrapAllowedAssets then none
  let quote ← quoteWrapRequestInner s gasPrice normalized.gasLimit
  if validateWrapQuoteWithinApproval normalized quote = false then none
  let req ← openWrapRequest s normalized caller quote now
  let id := normalized.requestId
  if (s.wrapPendingSubmissions.get id).isSome then none
  let reserved := s.reserve id caller req
  some ((reserved.collectFee env id caller quote.feeLedgerCanister quote.chargedFeeE8s req).suspend id
    (.submitFee reserved.calls.length))

def finishSubmit (s : GatewayState T) (id : TxId) (now : Nat) (fee : Except String LedgerTxId) : GatewayState T :=
  match fee with
  | .error code => (s.updateRequest id (recordWrapRequestFailure ("fee." ++ code) false now)).clearWrapPendingSubmission id
  | .ok feeLedgerTxId =>
      ((s.updateRequest id (recordWrapFeeCollected feeLedgerTxId now)).enqueueWrapRequestOnce
        id).clearWrapPendingSubmission id

def finishWrap (s : GatewayState T) (id : TxId) (now : Nat) (outcome : WrapExecutionOutcome) : GatewayState T :=
  s.updateRequest id (applyWrapExecutionOutcome outcome now)

def startMint (s : GatewayState T) (id : TxId) (now : Nat) (req : WrapStoredRequest)
    (pullLedgerTxId : LedgerTxId) : GatewayState T :=
  match req.result.mintTxId with
  | some txId => s.finishWrap id now (wrapMinted pullLedgerTxId txId)
  | none =>
      match s.wrapFactoryAddress with
      | none => s.finishWrap id now
          (wrapFailed (some pullLedgerTxId) "config.wrap_factory_address_invalid" true)
      | some factory => s.suspend id (.decimals factory req pullLedgerTxId)

def startPull (env : Env T) (s : GatewayState T) (id : TxId) (now : Nat) (req : WrapStoredRequest) : GatewayState T :=
  let marked := s.updateRequest id (markWrapStage .pullPending .running now)
  (marked.call req.assetId.principal (icrc2TransferFrom env req.caller req.amount
    (requestMemo env.crypto id .pull) req.pullCreatedAtTime) (.pull id)).suspend id
      (.pull marked.calls.length req)

def executeWrapRequest (env : Env T) (s : GatewayState T) (id : TxId) (now : Nat)
    (req : WrapStoredRequest) : GatewayState T :=
  match req.result.pullLedgerTxId with
  | some pullLedgerTxId => s.startMint id now req pullLedgerTxId
  | none => s.startPull env id now req

def dequeueWrapRequest (requests : OrdMap TxId WrapStoredRequest) :
    List TxId → Option (TxId × WrapStoredRequest × List TxId)
  | [] => none
  | id :: rest =>
      match requests.get id with
      | none => dequeueWrapRequest requests rest
      | some req => some (id, req, rest)

def wrapWorkerTick (env : Env T) (now : Nat) (s : GatewayState T) : Option (GatewayState T) := do
  let (id, req, rest) ← dequeueWrapRequest s.wrapRequests s.wrapQueue
  let running := req.markRunning now
  some (({ s with wrapQueue := rest, wrapRequests := s.wrapRequests.insert id running }
    : GatewayState T).executeWrapRequest env id now running)

def finishPull (s : GatewayState T) (id : TxId) (now : Nat) (req : WrapStoredRequest)
    (pull : Except String LedgerTxId) : GatewayState T :=
  match pull with
  | .error code => s.finishWrap id now (wrapFailed none code false)
  | .ok pullLedgerTxId =>
      (s.updateRequest id (recordWrapPullSuccess pullLedgerTxId now)).startMint id now req pullLedgerTxId

end GatewayState

def factoryMintForAssetSelector (c : Crypto) : Bytes :=
  (c.keccak256 "mintForAsset(bytes,uint8,address,uint256)".toUTF8.toList).toList.take 4

def encodeFactoryMintForAssetCallData (c : Crypto) (assetId : Bytes) (tokenDecimals : UInt8)
    (recipient : Address) (amount : Nat) : Bytes :=
  factoryMintForAssetSelector c ++ (encode 32 128 ++ (encode 32 tokenDecimals.toNat ++
    (List.replicate 12 0 ++ (recipient.toList ++ (encode 32 amount ++ (encode 32 assetId.length ++
      (assetId ++ List.replicate ((32 - assetId.length % 32) % 32) 0)))))))

def mintTx (c : Crypto) (factory : Address) (req : WrapStoredRequest) (tokenDecimals : UInt8)
    (nonce : UInt64) (suggestedPriorityFeeWei : BitVec 128) : IcSyntheticTxInput :=
  let charged := req.result.chargedGasPriceWei.getD 0
  { dest := some factory
    value := zeroArr 32
    gasLimit := req.gasLimit
    nonce := nonce
    maxFeePerGas := charged
    maxPriorityFeePerGas := if suggestedPriorityFeeWei.toNat ≤ charged.toNat then
      suggestedPriorityFeeWei else charged
    data := encodeFactoryMintForAssetCallData c req.assetId.bytes tokenDecimals req.evmRecipient
      req.amount }

def isDuplicateMintSubmitError (e : ChainError) : Bool :=
  decide (e = .txAlreadySeen ∨ e = .nonceConflict)

def submitErrorToCode : ChainError → String
  | .txTooLarge => "invalid_argument:arg.tx_too_large"
  | .decodeFailed => "invalid_argument:arg.decode_failed"
  | .addressDerivationFailed => "invalid_argument:arg.principal_to_evm_derivation_failed"
  | .txAlreadySeen => "rejected:submit.tx_already_seen"
  | .invalidFee => "rejected:submit.invalid_fee"
  | .nonceTooLow => "rejected:submit.nonce_too_low"
  | .nonceGap => "rejected:submit.nonce_gap"
  | .nonceConflict => "rejected:submit.nonce_conflict"
  | .queueFull => "rejected:submit.queue_full"
  | .senderQueueFull => "rejected:submit.sender_queue_full"
  | .principalQueueFull => "rejected:submit.principal_queue_full"
  | .decodeRateLimited => "rejected:submit.decode_rate_limited"
  | _ => "internal:internal.unexpected"

structure MintReply where
  tokenDecimals : Except String UInt8
  suggestedPriorityFeeWei : Except String (BitVec 128)

def nanosPerSec : Nat := 1_000_000_000

namespace GatewayState

def recordMint (s : GatewayState T) (id : TxId) (now : Nat) (pullLedgerTxId : LedgerTxId) (txId : TxId)
    (accepted : Bool) : GatewayState T :=
  { (s.updateRequest id (recordWrapMintSubmitted txId now)).finishWrap id now
      (wrapMinted pullLedgerTxId txId) with
    mints := s.mints ++ [⟨id, txId, accepted⟩] }

def submitMintTx (env : Env T) (s : GatewayState T) (id : TxId) (now : Nat) (pullLedgerTxId : LedgerTxId)
    (wrapEvm : Address) (tx : IcSyntheticTxInput) : GatewayState T :=
  let self := env.canisterSelf.principal
  match submitIcTxInput env.crypto (evm env.crypto env.revm env.trie) (now / nanosPerSec) self self tx
      s.chain with
  | (.ok txId, chain) => { s with chain := chain }.recordMint id now pullLedgerTxId txId true
  | (.error e, chain) =>
      let txId := storedTxId env.crypto .icSynthetic (encodeIcSyntheticInput tx) (some wrapEvm)
        (some self.bytes) (some self.bytes)
      if isDuplicateMintSubmitError e ∧ (txLocsGet chain txId).isSome then
        { s with chain := chain }.recordMint id now pullLedgerTxId txId false
      else { s with chain := chain }.finishWrap id now (wrapFailed (some pullLedgerTxId)
        ("evm_gateway.submit_failed:" ++ submitErrorToCode e) true)

def submitMintTxInternal (env : Env T) (s : GatewayState T) (id : TxId) (now : Nat) (factory : Address)
    (req : WrapStoredRequest) (pullLedgerTxId : LedgerTxId) (reply : MintReply) : GatewayState T :=
  let failed (s : GatewayState T) (code : String) : GatewayState T :=
    s.finishWrap id now (wrapFailed (some pullLedgerTxId) code true)
  match reply.tokenDecimals with
  | .error code => failed s code
  | .ok tokenDecimals =>
      match env.crypto.deriveEvmAddress env.canisterSelf.bytes with
      | none => failed s "wrap.evm_address_derivation_failed"
      | some wrapEvm =>
          let nonce := req.result.mintNonce.getD (.ofNat
            (expectedNonceForSenderView (evm env.crypto env.revm env.trie) s.chain wrapEvm))
          let submitting := s.updateRequest id (recordWrapMintSubmitting nonce now)
          match reply.suggestedPriorityFeeWei with
          | .error code => failed submitting ("fee.priority_failed:" ++ code)
          | .ok suggested => submitting.submitMintTx env id now pullLedgerTxId wrapEvm
              (mintTx env.crypto factory req tokenDecimals nonce suggested)

def recoverFailedWrap (env : Env T) (now : Nat) (id : TxId) (s : GatewayState T) : Option (GatewayState T) := do
  let old ← s.wrapRequests.get id
  let req ← (old.recoverFailedWrap now).toOption
  let marked : GatewayState T := { s with wrapRequests := s.wrapRequests.insert id req }
  some ((marked.call req.assetId.principal (icrc1Transfer env req.caller req.amount
    (requestMemo env.crypto id .withdraw) req.withdrawCreatedAtTime) (.refund id)).suspend id
      (.refund marked.calls.length))

def settleRequest (chain : StableState (World T)) (now : Nat) (req : WrapStoredRequest) :
    WrapStoredRequest :=
  match req.mintReceiptCandidate with
  | none => req
  | some txId =>
      match getReceipt chain txId with
      | none => req
      | some receipt => if receipt.status = 1 then req.settleSucceeded now else req.settleFailed now

def settleSubmittedWrapMintReceipts (now : Nat) (s : GatewayState T) : GatewayState T :=
  { s with wrapRequests := s.wrapRequests.map (settleRequest s.chain now) }

end GatewayState

end Kasane.Gateway
