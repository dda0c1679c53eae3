import Kasane.Exec.Execute

namespace Kasane.Gateway

open BigEndian Codec Word Chain

inductive RequestStatus where
  | queued
  | running
  | succeeded
  | failed
deriving DecidableEq, Repr

inductive WrapRequestStage where
  | feePending
  | feeCollected
  | pullPending
  | pulled
  | mintSubmitting
  | mintSubmitted
  | succeeded
  | failed
  | refunding
  | refunded
deriving DecidableEq, Repr

inductive MintSubmitStatus where
  | notSubmitted
  | submitting
  | submitted
deriving DecidableEq, Repr

def maxStoredErrorCodeBytes : Nat := 160

def maxStoredLedgerTxIdBytes : Nat := 128

structure LedgerTxId where
  bytes : Bytes
  nonempty : bytes ≠ []
  bounded : bytes.length ≤ maxStoredLedgerTxIdBytes
deriving DecidableEq

-- a block index of an ICRC ledger is a u64, so its big-endian bytes always pass the storage check
def natToBeBytes (blockIndex : UInt64) : LedgerTxId :=
  match h : (u64Bytes blockIndex).dropWhile (fun b => decide (b = 0)) with
  | [] => ⟨[0], by simp, by decide⟩
  | b :: rest => ⟨b :: rest, by simp, by
      have hle := (List.dropWhile_sublist (fun b => decide (b = 0)) (l := u64Bytes blockIndex)).length_le
      rw [h, length_u64Bytes] at hle
      exact hle.trans (by decide)⟩

structure StoredPrincipal where
  principal : Principal
  nonempty : principal.bytes ≠ []
deriving DecidableEq

def StoredPrincipal.bytes (p : StoredPrincipal) : Bytes := p.principal.bytes

def StoredPrincipal.ofPrincipal (p : Principal) : Option StoredPrincipal :=
  if h : p.bytes = [] then none else some ⟨p, h⟩

def StoredPrincipal.ofBytes (bytes : Bytes) : Option StoredPrincipal :=
  if h : bytes = [] then none
  else if h' : bytes.length ≤ maxPrincipalLen then some ⟨⟨bytes, h'⟩, h⟩
  else none

def takeUtf8 : Nat → List Char → List Char
  | _, [] => []
  | n, ch :: rest => if ch.utf8Size ≤ n then ch :: takeUtf8 (n - ch.utf8Size) rest else []

def clampUtf8Bytes (value : String) (maxBytes : Nat) : String :=
  .ofList (takeUtf8 maxBytes value.toList)

def clampErrorCode (code : String) : String := clampUtf8Bytes code maxStoredErrorCodeBytes

structure WrapRequestResult where
  status : RequestStatus
  pullLedgerTxId : Option LedgerTxId
  mintTxId : Option TxId
  errorCode : Option String
  withdrawn : Bool
  withdrawLedgerTxId : Option LedgerTxId
  withdrawErrorCode : Option String
  withdrawInProgress : Bool
  mintFailedRecoverable : Bool
  feeLedgerTxId : Option LedgerTxId
  chargedFeeE8s : Option (BitVec 128)
  chargedGasPriceWei : Option (BitVec 128)
  stage : WrapRequestStage
  updatedAt : Nat
  mintNonce : Option UInt64
  mintSubmittedAtTime : Nat
  mintSubmitStatus : MintSubmitStatus
deriving DecidableEq

structure WrapStoredRequest where
  caller : StoredPrincipal
  assetId : StoredPrincipal
  amount : Nat
  evmRecipient : Address
  gasLimit : UInt64
  feeLedgerCanister : StoredPrincipal
  maxFeeE8s : BitVec 128
  quotedGasPriceWei : BitVec 128
  feeCreatedAtTime : Nat
  pullCreatedAtTime : Nat
  withdrawCreatedAtTime : Nat
  result : WrapRequestResult
deriving DecidableEq

def WrapRequestResult.new (status : RequestStatus) (chargedFeeE8s chargedGasPriceWei : BitVec 128)
    (now : Nat) : WrapRequestResult where
  status := status
  pullLedgerTxId := none
  mintTxId := none
  errorCode := none
  withdrawn := false
  withdrawLedgerTxId := none
  withdrawErrorCode := none
  withdrawInProgress := false
  mintFailedRecoverable := false
  feeLedgerTxId := none
  chargedFeeE8s := some chargedFeeE8s
  chargedGasPriceWei := some chargedGasPriceWei
  stage := .feePending
  updatedAt := now
  mintNonce := none
  mintSubmittedAtTime := 0
  mintSubmitStatus := .notSubmitted

structure WrapExecutionOutcome where
  status : RequestStatus
  pullLedgerTxId : Option LedgerTxId
  mintTxId : Option TxId
  errorCode : Option String
  mintFailedRecoverable : Bool

def wrapFailed (pullLedgerTxId : Option LedgerTxId) (code : String) (mintFailedRecoverable : Bool) :
    WrapExecutionOutcome :=
  ⟨.failed, pullLedgerTxId, none, some code, mintFailedRecoverable⟩

def wrapMinted (pullLedgerTxId : LedgerTxId) (mintTxId : TxId) : WrapExecutionOutcome :=
  ⟨.running, some pullLedgerTxId, some mintTxId, none, false⟩

def staleOperationNanos : Nat := 10 * 60 * 1_000_000_000

namespace WrapStoredRequest

def sanitizeWrapRequest (req : WrapStoredRequest) : WrapStoredRequest :=
  { req with result :=
    { req.result with
      errorCode := req.result.errorCode.map clampErrorCode
      withdrawErrorCode := req.result.withdrawErrorCode.map clampErrorCode } }

def recordWrapFeeCollected (feeLedgerTxId : LedgerTxId) (now : Nat) (req : WrapStoredRequest) :
    WrapStoredRequest :=
  sanitizeWrapRequest { req with result :=
    { req.result with
      feeLedgerTxId := some feeLedgerTxId
      errorCode := none
      stage := .feeCollected
      updatedAt := now } }

def recordNativeDepositFeeCollected (feeLedgerTxId : LedgerTxId) (now : Nat)
    (req : WrapStoredRequest) : WrapStoredRequest :=
  req.recordWrapFeeCollected feeLedgerTxId now

def recordWrapPullSuccess (pullLedgerTxId : LedgerTxId) (now : Nat) (req : WrapStoredRequest) :
    WrapStoredRequest :=
  sanitizeWrapRequest { req with result :=
    { req.result with
      pullLedgerTxId := some pullLedgerTxId
      stage := .pulled
      updatedAt := now
      errorCode := none } }

def recordNativeDepositPulled (pullLedgerTxId : LedgerTxId) (now : Nat) (req : WrapStoredRequest) :
    WrapStoredRequest :=
  req.recordWrapPullSuccess pullLedgerTxId now

def recordWrapRequestFailure (code : String) (mintFailedRecoverable : Bool) (now : Nat)
    (req : WrapStoredRequest) : WrapStoredRequest :=
  sanitizeWrapRequest { req with result :=
    { req.result with
      status := .failed
      stage := .failed
      errorCode := some (clampErrorCode code)
      mintFailedRecoverable := mintFailedRecoverable
      updatedAt := now } }

def markRunning (now : Nat) (req : WrapStoredRequest) : WrapStoredRequest :=
  { req with result := { req.result with status := .running, updatedAt := now } }

def markWrapStage (stage : WrapRequestStage) (status : RequestStatus) (now : Nat)
    (req : WrapStoredRequest) : WrapStoredRequest :=
  sanitizeWrapRequest { req with result :=
    { req.result with status := status, stage := stage, updatedAt := now } }

def recordWrapMintSubmitting (nonce : UInt64) (now : Nat) (req : WrapStoredRequest) :
    WrapStoredRequest :=
  sanitizeWrapRequest { req with result :=
    { req.result with
      mintNonce := some nonce
      mintSubmitStatus := .submitting
      stage := .mintSubmitting
      updatedAt := now } }

def recordWrapMintSubmitted (txId : TxId) (now : Nat) (req : WrapStoredRequest) :
    WrapStoredRequest :=
  sanitizeWrapRequest { req with result :=
    { req.result with
      mintTxId := some txId
      mintSubmittedAtTime := now
      mintSubmitStatus := .submitted
      stage := .mintSubmitted
      updatedAt := now
      errorCode := none } }

def stageAfter (status : RequestStatus) (mintTxId : Option TxId) : WrapRequestStage :=
  match status with
  | .succeeded => .succeeded
  | .failed => .failed
  | .running => if mintTxId.isSome then .mintSubmitted else .mintSubmitting
  | .queued => .feeCollected

def applyWrapExecutionOutcome (outcome : WrapExecutionOutcome) (now : Nat)
    (req : WrapStoredRequest) : WrapStoredRequest :=
  let mintTxId := outcome.mintTxId.or req.result.mintTxId
  sanitizeWrapRequest { req with result :=
    { req.result with
      status := outcome.status
      pullLedgerTxId := outcome.pullLedgerTxId.or req.result.pullLedgerTxId
      mintTxId := mintTxId
      errorCode := outcome.errorCode.map clampErrorCode
      mintFailedRecoverable := outcome.mintFailedRecoverable
      stage := stageAfter outcome.status mintTxId
      updatedAt := now } }

def mintReceiptCandidate (req : WrapStoredRequest) : Option TxId :=
  if req.gasLimit = 0 ∨ req.result.status ≠ .running ∨ req.result.mintSubmitStatus ≠ .submitted then
    none
  else req.result.mintTxId

def settleSucceeded (now : Nat) (req : WrapStoredRequest) : WrapStoredRequest :=
  sanitizeWrapRequest { req with result :=
    { req.result with
      updatedAt := now
      status := .succeeded
      stage := .succeeded
      errorCode := none
      mintFailedRecoverable := false } }

def settleFailed (now : Nat) (req : WrapStoredRequest) : WrapStoredRequest :=
  sanitizeWrapRequest { req with result :=
    { req.result with
      updatedAt := now
      status := .failed
      stage := .failed
      errorCode := some "wrap.mint_receipt_failed"
      mintFailedRecoverable := true } }

def RecoverAllowed (req : WrapStoredRequest) : Prop :=
  req.gasLimit ≠ 0 ∧ req.result.status = .failed ∧ req.result.mintFailedRecoverable = true ∧
    req.result.pullLedgerTxId ≠ none ∧ req.result.withdrawInProgress = false ∧
      req.result.withdrawn = false ∧ req.result.withdrawLedgerTxId = none

instance (req : WrapStoredRequest) : Decidable req.RecoverAllowed := by
  unfold RecoverAllowed
  infer_instance

def recoverFailedWrap (now : Nat) (req : WrapStoredRequest) : Except String WrapStoredRequest :=
  if req.gasLimit = 0 ∨ req.result.status ≠ .failed ∨ req.result.mintFailedRecoverable = false ∨
      req.result.pullLedgerTxId = none then .error "wrap.recover_invalid_state"
  else if req.result.withdrawInProgress then .error "wrap.recover_in_progress"
  else if req.result.withdrawn ∨ req.result.withdrawLedgerTxId.isSome then
    .error "wrap.recover_already_withdrawn"
  else .ok { req with
    withdrawCreatedAtTime := if req.withdrawCreatedAtTime = 0 then now else req.withdrawCreatedAtTime
    result :=
      { req.result with
        withdrawInProgress := true
        stage := .refunding
        updatedAt := now } }

theorem recoverFailedWrap_ok {now : Nat} {req new : WrapStoredRequest}
    (h : req.recoverFailedWrap now = .ok new) :
    req.RecoverAllowed ∧ ∃ time, new = { req with
      withdrawCreatedAtTime := time
      result :=
        { req.result with
          withdrawInProgress := true
          stage := .refunding
          updatedAt := now } } := by
  rw [recoverFailedWrap] at h
  by_cases hstate : req.gasLimit = 0 ∨ req.result.status ≠ .failed ∨
      req.result.mintFailedRecoverable = false ∨ req.result.pullLedgerTxId = none
  · rw [if_pos hstate] at h
    exact absurd h (by simp)
  · rw [if_neg hstate] at h
    by_cases hprogress : req.result.withdrawInProgress = true
    · rw [if_pos hprogress] at h
      exact absurd h (by simp)
    · rw [if_neg hprogress] at h
      by_cases hdone : req.result.withdrawn = true ∨ req.result.withdrawLedgerTxId.isSome = true
      · rw [if_pos hdone] at h
        exact absurd h (by simp)
      · rw [if_neg hdone] at h
        refine ⟨?_, _, (Except.ok.inj h).symm⟩
        simp only [not_or, Bool.not_eq_true, Option.isSome_eq_false_iff, Option.isNone_iff_eq_none,
          not_not, Bool.not_eq_false] at hstate hprogress hdone
        exact ⟨hstate.1, hstate.2.1, hstate.2.2.1, hstate.2.2.2, hprogress, hdone⟩

def finishRecover (transfer : Except String LedgerTxId) (now : Nat) (req : WrapStoredRequest) :
    WrapStoredRequest :=
  match transfer with
  | .ok ledgerTxId =>
      sanitizeWrapRequest { req with result :=
        { req.result with
          withdrawInProgress := false
          updatedAt := now
          withdrawn := true
          stage := .refunded
          withdrawLedgerTxId := some ledgerTxId
          withdrawErrorCode := none } }
  | .error code =>
      sanitizeWrapRequest { req with result :=
        { req.result with
          withdrawInProgress := false
          updatedAt := now
          stage := .failed
          withdrawErrorCode := some (clampErrorCode code) } }

def finalizeNativeDepositCredit (id : TxId) (outcome : Except String Unit) (now : Nat)
    (req : WrapStoredRequest) : WrapStoredRequest :=
  match outcome with
  | .ok () =>
      sanitizeWrapRequest { req with result :=
        { req.result with
          updatedAt := now
          status := .succeeded
          stage := .succeeded
          mintTxId := some id
          errorCode := none
          mintFailedRecoverable := false } }
  | .error code =>
      sanitizeWrapRequest { req with result :=
        { req.result with
          updatedAt := now
          status := .failed
          stage := .failed
          errorCode := some (clampErrorCode ("evm_gateway.credit_failed:" ++ code))
          mintFailedRecoverable := true } }

def retryNativeDeposit (req : WrapStoredRequest) : Except String WrapStoredRequest :=
  if req.gasLimit ≠ 0 ∨ req.result.mintFailedRecoverable = false then
    .error "native_deposit.retry_invalid_state"
  else if req.result.status = .running then .error "native_deposit.retry_in_progress"
  else if req.result.pullLedgerTxId = none then .error "native_deposit.retry_missing_pull"
  else .ok { req with result := { req.result with status := .running } }

theorem retryNativeDeposit_ok {req new : WrapStoredRequest} (h : req.retryNativeDeposit = .ok new) :
    req.gasLimit = 0 ∧ req.result.mintFailedRecoverable = true ∧ req.result.status ≠ .running ∧
      req.result.pullLedgerTxId ≠ none ∧
        new = { req with result := { req.result with status := .running } } := by
  rw [retryNativeDeposit] at h
  split_ifs at h with hstate hrunning hpull
  rw [not_or, not_not, Bool.not_eq_false] at hstate
  exact ⟨hstate.1, hstate.2, hrunning, hpull, (Except.ok.inj h).symm⟩

def finishRetry (id : TxId) (outcome : Except String Unit) (req : WrapStoredRequest) :
    WrapStoredRequest :=
  match outcome with
  | .ok () => { req with result :=
      { req.result with
        status := .succeeded
        mintTxId := some id
        errorCode := none
        mintFailedRecoverable := false } }
  | .error code => { req with result :=
      { req.result with
        status := .failed
        errorCode := some ("evm_gateway.credit_failed:" ++ code)
        mintFailedRecoverable := true } }

def refundStale (now : Nat) (req : WrapStoredRequest) : Bool :=
  req.result.withdrawInProgress && decide (req.result.updatedAt ≤ now - staleOperationNanos)

def runStale (now : Nat) (req : WrapStoredRequest) : Bool :=
  !refundStale now req && decide (req.result.status = .running ∧
    req.result.updatedAt ≤ now - staleOperationNanos ∧ req.result.mintTxId = none ∧
      req.result.mintSubmitStatus ≠ .submitted)

def repairStale (now : Nat) (req : WrapStoredRequest) : WrapStoredRequest :=
  if req.refundStale now then
    sanitizeWrapRequest { req with result :=
      { req.result with withdrawInProgress := false, stage := .failed, updatedAt := now } }
  else if req.runStale now then
    sanitizeWrapRequest { req with result :=
      { req.result with status := .queued, updatedAt := now } }
  else req

def upgradeCandidate (req : WrapStoredRequest) : Bool :=
  decide (req.gasLimit ≠ 0 ∧ (req.result.status = .queued ∨ req.result.status = .running))

def mintOutstanding (req : WrapStoredRequest) : Bool :=
  req.result.mintTxId.isSome || decide (req.result.mintSubmitStatus = .submitted)

def upgradeRequeues (req : WrapStoredRequest) : Bool :=
  req.upgradeCandidate && !(decide (req.result.status = .running) && req.mintOutstanding)

def recoverAfterUpgrade (req : WrapStoredRequest) : WrapStoredRequest :=
  if req.upgradeCandidate ∧ req.result.status = .running ∧ req.mintOutstanding = false then
    { req with result := { req.result with status := .queued } }
  else req

end WrapStoredRequest

end Kasane.Gateway
