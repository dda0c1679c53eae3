import Kasane.Gateway.Run

namespace Kasane.Gateway

open BigEndian Codec Word Chain Exec
open WrapStoredRequest

structure Lane where
  record : Option WrapStoredRequest
  queued : Nat
  pending : Bool
  tasks : List WrapTask
  mints : List Mint
  credits : List NativeCredit
  creditRecord : Option NativeCreditRecord
  pullSent : Bool
  refundSent : Bool

namespace Lane

def start : Lane := ⟨none, 0, false, [], [], [], none, false, false⟩

def update (f : WrapStoredRequest → WrapStoredRequest) (l : Lane) : Lane :=
  { l with record := l.record.map f }

def suspend (task : WrapTask) (l : Lane) : Lane := { l with tasks := l.tasks ++ [task] }

def enqueueOnce (l : Lane) : Lane := { l with queued := max 1 l.queued }

def release (l : Lane) : Lane := { l with pending := false }

def reserve (req : WrapStoredRequest) (l : Lane) : Lane :=
  { l with pending := true, record := some req }

def sendPull (l : Lane) : Lane := { l with pullSent := true }

def sendRefund (l : Lane) : Lane := { l with refundSent := true }

def finish (now : Nat) (outcome : WrapExecutionOutcome) (l : Lane) : Lane :=
  l.update (applyWrapExecutionOutcome outcome now)

def minted (id : TxId) (now : Nat) (pullLedgerTxId : LedgerTxId) (txId : TxId) (accepted : Bool)
    (l : Lane) : Lane :=
  { (l.update (recordWrapMintSubmitted txId now)).finish now (wrapMinted pullLedgerTxId txId) with
    mints := l.mints ++ [⟨id, txId, accepted⟩] }

def credited (id : TxId) (recipient : Address) (amountWei : Nat) (l : Lane) : Lane :=
  { l with
    creditRecord := some ⟨recipient, amountWei⟩
    credits := l.credits ++ [⟨id, recipient, amountWei,
      l.record.bind (fun req => req.result.pullLedgerTxId)⟩] }

def failDeposit (now : Nat) (code : String) (l : Lane) : Lane :=
  (l.update (recordWrapRequestFailure code false now)).release

def Resumes (task : WrapTask) (l l' : Lane) : Prop :=
  ∃ before after, l.tasks = before ++ task :: after ∧ l' = { l with tasks := before ++ after }

inductive StartsMint (now : Nat) (req : WrapStoredRequest) (pullLedgerTxId : LedgerTxId) (l : Lane) :
    Lane → Prop
  | known {txId : TxId} (known : req.result.mintTxId = some txId) :
      StartsMint now req pullLedgerTxId l (l.finish now (wrapMinted pullLedgerTxId txId))
  | unconfigured (unknown : req.result.mintTxId = none) (code : String) :
      StartsMint now req pullLedgerTxId l (l.finish now (wrapFailed (some pullLedgerTxId) code true))
  | decimals (unknown : req.result.mintTxId = none) (factory : Address) :
      StartsMint now req pullLedgerTxId l (l.suspend (.decimals factory req pullLedgerTxId))

inductive Executes (now : Nat) (req : WrapStoredRequest) (l : Lane) : Lane → Prop
  | pulls (unpulled : req.result.pullLedgerTxId = none) (call : Nat) :
      Executes now req l
        (((l.update (markWrapStage .pullPending .running now)).sendPull).suspend (.pull call req))
  | mints {pullLedgerTxId : LedgerTxId} {l' : Lane}
      (pulled : req.result.pullLedgerTxId = some pullLedgerTxId)
      (starts : StartsMint now req pullLedgerTxId l l') : Executes now req l l'

section

variable {T : Type}

structure MintSent (env : Env T) (c c' : StableState (World T)) (now : Nat) (factory : Address)
    (req : WrapStoredRequest) (nonce : UInt64) (result : Except ChainError TxId)
    (tx : IcSyntheticTxInput) (wrapEvm : Address) : Prop where
  built : ∃ tokenDecimals suggested,
    tx = mintTx env.crypto factory req tokenDecimals nonce suggested
  derived : env.crypto.deriveEvmAddress env.canisterSelf.bytes = some wrapEvm
  sent : submitIcTxInput env.crypto (evm env.crypto env.revm env.trie) (now / nanosPerSec)
    env.canisterSelf.principal env.canisterSelf.principal tx c = (result, c')

def mintNonce (env : Env T) (c : StableState (World T)) (req : WrapStoredRequest)
    (wrapEvm : Address) : UInt64 :=
  req.result.mintNonce.getD
    (.ofNat (expectedNonceForSenderView (evm env.crypto env.revm env.trie) c wrapEvm))

def mintTxId (env : Env T) (tx : IcSyntheticTxInput) (wrapEvm : Address) : TxId :=
  storedTxId env.crypto .icSynthetic (encodeIcSyntheticInput tx) (some wrapEvm)
    (some env.canisterSelf.bytes) (some env.canisterSelf.bytes)

inductive SubmitsMint (env : Env T) (id : TxId) (now : Nat) (factory : Address)
    (req : WrapStoredRequest) (pullLedgerTxId : LedgerTxId) (c : StableState (World T)) (l : Lane) :
    StableState (World T) → Lane → Prop
  | stopped (code : String) :
      SubmitsMint env id now factory req pullLedgerTxId c l c
        (l.finish now (wrapFailed (some pullLedgerTxId) code true))
  | unpriced (nonce : UInt64) (code : String) :
      SubmitsMint env id now factory req pullLedgerTxId c l c
        ((l.update (recordWrapMintSubmitting nonce now)).finish now
          (wrapFailed (some pullLedgerTxId) code true))
  | accepted {c' : StableState (World T)} {tx : IcSyntheticTxInput} {wrapEvm : Address} {txId : TxId}
      (sent : MintSent env c c' now factory req (mintNonce env c req wrapEvm) (.ok txId) tx wrapEvm) :
      SubmitsMint env id now factory req pullLedgerTxId c l c'
        ((l.update (recordWrapMintSubmitting (mintNonce env c req wrapEvm) now)).minted id now
          pullLedgerTxId txId true)
  | duplicate {c' : StableState (World T)} {tx : IcSyntheticTxInput} {wrapEvm : Address}
      {e : ChainError}
      (sent : MintSent env c c' now factory req (mintNonce env c req wrapEvm) (.error e) tx wrapEvm)
      (seen : isDuplicateMintSubmitError e = true)
      (located : (txLocsGet c' (mintTxId env tx wrapEvm)).isSome) :
      SubmitsMint env id now factory req pullLedgerTxId c l c'
        ((l.update (recordWrapMintSubmitting (mintNonce env c req wrapEvm) now)).minted id now
          pullLedgerTxId (mintTxId env tx wrapEvm) false)
  | rejected {c' : StableState (World T)} {tx : IcSyntheticTxInput} {wrapEvm : Address}
      {e : ChainError}
      (sent : MintSent env c c' now factory req (mintNonce env c req wrapEvm) (.error e) tx wrapEvm)
      (code : String) :
      SubmitsMint env id now factory req pullLedgerTxId c l c'
        ((l.update (recordWrapMintSubmitting (mintNonce env c req wrapEvm) now)).finish now
          (wrapFailed (some pullLedgerTxId) code true))

end

inductive CreditsNative (id : TxId) (recipient : Address) (amountWei : Nat) (l : Lane) :
    Except String Unit → Lane → Prop
  | refused (code : String) : CreditsNative id recipient amountWei l (.error code) l
  | known (known : l.creditRecord = some ⟨recipient, amountWei⟩) :
      CreditsNative id recipient amountWei l (.ok ()) l
  | credited (fresh : l.creditRecord = none) :
      CreditsNative id recipient amountWei l (.ok ()) (l.credited id recipient amountWei)

inductive Finalizes (id : TxId) (now : Nat) (flow : DepositFlow) (req : WrapStoredRequest) (l : Lane) :
    Lane → Prop
  | done (settled : req.result.mintTxId ≠ none ∧ req.result.status = .succeeded) :
      Finalizes id now flow req l l.release
  | credits {outcome : Except String Unit} {l' : Lane}
      (credits : CreditsNative id flow.evmRecipient flow.amountWei l outcome l') :
      Finalizes id now flow req l
        (l'.update (WrapStoredRequest.finalizeNativeDepositCredit id outcome now)).release

inductive Deposits (id : TxId) (now : Nat) (flow : DepositFlow) (req : WrapStoredRequest) (l : Lane) :
    Lane → Prop
  | pulls (unpulled : req.result.pullLedgerTxId = none) (call : Nat) :
      Deposits id now flow req l (l.sendPull.suspend (.depositPull call flow))
  | finalizes {l' : Lane} (pulled : req.result.pullLedgerTxId ≠ none)
      (finalizes : Finalizes id now flow req l l') : Deposits id now flow req l l'

end Lane

variable {T : Type}

structure OpensWrap (record : Option WrapStoredRequest) (now : Nat) (req : WrapStoredRequest) :
    Prop where
  gas : req.gasLimit ≠ 0
  unpaid : req.result.feeLedgerTxId = none
  opened : record = some req ∨
    (record = none ∧ ∃ args caller quote, req = newWrapRequest args caller quote now)

structure OpensDeposit (env : Env T) (id : TxId) (record : Option WrapStoredRequest) (now : Nat)
    (flow : DepositFlow) (req : WrapStoredRequest) : Prop where
  derived : ∃ owner depositId, id = deriveNativeDepositRequestId env.crypto owner depositId
  wei : flow.amountWei = flow.amount * weiPerE8s
  opened : (record = some req ∧ depositMatches flow req = true ∧ depositAnswered req = false) ∨
    (record = none ∧ ∃ policy maxFeeE8s, req = newNativeDepositRequest flow policy maxFeeE8s now)

open Lane in
inductive LaneStep (env : Env T) (id : TxId) (c c' : StableState (World T)) :
    Action → Lane → Lane → Prop
  | other {a : Action} {l : Lane} : LaneStep env id c c' a l l
  | forget {now n : Nat} {l : Lane} (unknown : l.record = none) (fewer : n ≤ l.queued) :
      LaneStep env id c c' (.wrapWorkerTick now) l { l with queued := n }
  | submit {now gasPrice call : Nat} {caller : Principal} {args : SubmitWrapRequestArgs} {l : Lane}
      {req : WrapStoredRequest} (free : l.pending = false) (opens : OpensWrap l.record now req) :
      LaneStep env id c c' (.submitWrapRequest now gasPrice caller args) l
        ((l.reserve req).suspend (.submitFee call))
  | unpaid {now i call : Nat} {reply : WrapReply} {l l' : Lane} (code : String)
      (resumes : Resumes (.submitFee call) l l') :
      LaneStep env id c c' (.resumeWrap now i reply) l (l'.failDeposit now code)
  | paid {now i call : Nat} {reply : WrapReply} {l l' : Lane} (feeLedgerTxId : LedgerTxId)
      (resumes : Resumes (.submitFee call) l l') :
      LaneStep env id c c' (.resumeWrap now i reply) l
        ((l'.update (recordWrapFeeCollected feeLedgerTxId now)).enqueueOnce).release
  | launch {now : Nat} {req : WrapStoredRequest} {l l' : Lane} (found : l.record = some req)
      (queued : 0 < l.queued)
      (executes : Executes now (req.markRunning now)
        { l with queued := l.queued - 1, record := some (req.markRunning now) } l') :
      LaneStep env id c c' (.wrapWorkerTick now) l l'
  | unpulled {now i call : Nat} {reply : WrapReply} {req : WrapStoredRequest} {l l' : Lane}
      (code : String) (resumes : Resumes (.pull call req) l l') :
      LaneStep env id c c' (.resumeWrap now i reply) l (l'.finish now (wrapFailed none code false))
  | pulled {now i call : Nat} {reply : WrapReply} {req : WrapStoredRequest}
      {pullLedgerTxId : LedgerTxId} {l l' l'' : Lane} (resumes : Resumes (.pull call req) l l')
      (starts : StartsMint now req pullLedgerTxId
        (l'.update (recordWrapPullSuccess pullLedgerTxId now)) l'') :
      LaneStep env id c c' (.resumeWrap now i reply) l l''
  | mint {now i : Nat} {reply : WrapReply} {factory : Address} {req : WrapStoredRequest}
      {pullLedgerTxId : LedgerTxId} {l l' l'' : Lane}
      (resumes : Resumes (.decimals factory req pullLedgerTxId) l l')
      (submits : SubmitsMint env id now factory req pullLedgerTxId c l' c' l'') :
      LaneStep env id c c' (.resumeWrap now i reply) l l''
  | recover {now call : Nat} {old req : WrapStoredRequest} {l : Lane} (found : l.record = some old)
      (allowed : old.recoverFailedWrap now = .ok req) :
      LaneStep env id c c' (.recoverFailedWrap now id) l
        ({ l with record := some req }.sendRefund.suspend (.refund call))
  | refunded {now i call : Nat} {reply : WrapReply} {l l' : Lane}
      (transfer : Except String LedgerTxId) (resumes : Resumes (.refund call) l l') :
      LaneStep env id c c' (.resumeWrap now i reply) l (l'.update (finishRecover transfer now))
  | depositFee {now call : Nat} {caller : Principal} {args : SubmitNativeDepositArgs} {l : Lane}
      {flow : DepositFlow} {req : WrapStoredRequest} (free : l.pending = false)
      (opens : OpensDeposit env id l.record now flow req)
      (unpaid : req.result.feeLedgerTxId = none) :
      LaneStep env id c c' (.submitNativeDeposit now caller args) l
        ((l.reserve req).suspend (.depositFee call flow))
  | depositAgain {now : Nat} {caller : Principal} {args : SubmitNativeDepositArgs} {l l' : Lane}
      {flow : DepositFlow} {req : WrapStoredRequest} (free : l.pending = false)
      (opens : OpensDeposit env id l.record now flow req)
      (paid : req.result.feeLedgerTxId ≠ none)
      (deposits : Deposits id now flow req (l.reserve req) l') :
      LaneStep env id c c' (.submitNativeDeposit now caller args) l l'
  | depositUnpaid {now i call : Nat} {reply : WrapReply} {flow : DepositFlow} {l l' : Lane}
      (code : String) (resumes : Resumes (.depositFee call flow) l l') :
      LaneStep env id c c' (.resumeWrap now i reply) l (l'.failDeposit now code)
  | depositPaid {now i call : Nat} {reply : WrapReply} {flow : DepositFlow}
      {feeLedgerTxId : LedgerTxId} {req : WrapStoredRequest} {l l' l'' : Lane}
      (resumes : Resumes (.depositFee call flow) l l')
      (found : (l'.update (recordNativeDepositFeeCollected feeLedgerTxId now)).record = some req)
      (deposits : Deposits id now flow req
        (l'.update (recordNativeDepositFeeCollected feeLedgerTxId now)) l'') :
      LaneStep env id c c' (.resumeWrap now i reply) l l''
  | depositUnpulled {now i call : Nat} {reply : WrapReply} {flow : DepositFlow} {l l' : Lane}
      (code : String) (resumes : Resumes (.depositPull call flow) l l') :
      LaneStep env id c c' (.resumeWrap now i reply) l (l'.failDeposit now code)
  | depositPulled {now i call : Nat} {reply : WrapReply} {flow : DepositFlow}
      {pullLedgerTxId : LedgerTxId} {req : WrapStoredRequest} {l l' l'' : Lane}
      (resumes : Resumes (.depositPull call flow) l l')
      (found : (l'.update (recordNativeDepositPulled pullLedgerTxId now)).record = some req)
      (finalizes : Finalizes id now flow req
        (l'.update (recordNativeDepositPulled pullLedgerTxId now)) l'') :
      LaneStep env id c c' (.resumeWrap now i reply) l l''
  | depositLost {now i call : Nat} {reply : WrapReply} {flow : DepositFlow} {task : WrapTask}
      {l l' : Lane} (deposit : task = .depositFee call flow ∨ task = .depositPull call flow)
      (unknown : l.record = none) (resumes : Resumes task l l') :
      LaneStep env id c c' (.resumeWrap now i reply) l l'
  | retry {now amountWei : Nat} {old req : WrapStoredRequest} {outcome : Except String Unit}
      {l l' : Lane} (found : l.record = some old) (allowed : old.retryNativeDeposit = .ok req)
      (wei : nativeDepositAmountWei req.amount = .ok amountWei)
      (credits : CreditsNative id req.evmRecipient amountWei { l with record := some req } outcome l') :
      LaneStep env id c c' (.retryNativeDeposit now id) l (l'.update (finishRetry id outcome))
  | retryRefused {now : Nat} {old req : WrapStoredRequest} {l : Lane} (code : String)
      (found : l.record = some old) (allowed : old.retryNativeDeposit = .ok req) :
      LaneStep env id c c' (.retryNativeDeposit now id) l
        ({ l with record := some req }.update (finishRetry id (.error code)))
  | settle {now : Nat} {call : CallEnv} {l : Lane} :
      LaneStep env id c c' (.miningTick now call) l (l.update (GatewayState.settleRequest c' now))
  | repair {now n : Nat} {l : Lane}
      (requeued : n = if l.record.any (runStale now) = true then max 1 l.queued else l.queued) :
      LaneStep env id c c' (.repairStaleOperations now) l
        { l.update (fun req => (GatewayState.settleRequest c now req).repairStale now) with queued := n }
  | upgrade {now n : Nat} {config : Option WrapConfig} {l : Lane}
      (requeued : n = if l.record.any upgradeRequeues = true then max 1 l.queued else l.queued) :
      LaneStep env id c c' (.postUpgrade now config) l
        { l.update recoverAfterUpgrade with queued := n, tasks := [] }

end Kasane.Gateway
