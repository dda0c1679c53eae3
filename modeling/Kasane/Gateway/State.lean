import Kasane.Gateway.Request
import Kasane.Lib.DedupLedger
import Kasane.Lib.SeqQueue
import Kasane.Precompile.Input
import Kasane.Receipt.Codec

namespace Kasane.Gateway

open BigEndian Codec Word Chain Exec
open DedupLedger (Transfer Ledger Outcome)

structure Env (T : Type) where
  crypto : Crypto
  revm : Revm
  trie : TrieCommit T
  canisterSelf : StoredPrincipal
  window : Nat

inductive CallOrigin where
  | fee (id : TxId)
  | pull (id : TxId)
  | refund (id : TxId)
  | payout (id : TxId)
deriving DecidableEq

abbrev LedgerCall := DedupLedger.Call Principal Principal CallOrigin

inductive UnwrapRequestStatus where
  | queued
  | dispatching
  | dispatched
  | dispatchFailed
deriving DecidableEq, Repr

structure UnwrapDispatchRequest where
  assetId : Bytes
  amount : Nat
  recipient : Bytes
  status : UnwrapRequestStatus
  ledgerTxId : Option LedgerTxId
  errorCode : Option String
  updatedAt : Nat
  transferCreatedAtTime : Nat
deriving DecidableEq

structure FeePolicy where
  feeLedgerCanister : StoredPrincipal
  cycleFeeE8s : UInt64
  gasPriceBufferBps : UInt32
deriving DecidableEq

structure NativeCreditRecord where
  recipient : Address
  amountWei : Nat
deriving DecidableEq

structure DepositFlow where
  caller : StoredPrincipal
  nativeLedger : StoredPrincipal
  amount : Nat
  amountWei : Nat
  evmRecipient : Address

inductive WrapTask where
  | submitFee (call : Nat)
  | pull (call : Nat) (req : WrapStoredRequest)
  | decimals (factory : Address) (req : WrapStoredRequest) (pullLedgerTxId : LedgerTxId)
  | refund (call : Nat)
  | depositFee (call : Nat) (flow : DepositFlow)
  | depositPull (call : Nat) (flow : DepositFlow)

inductive DispatchTask where
  | fee (ledger recipient : StoredPrincipal) (req : UnwrapDispatchRequest)
  | transfer (call : Nat)

structure Mint where
  requestId : TxId
  txId : TxId
  accepted : Bool
deriving DecidableEq

structure NativeCredit where
  requestId : TxId
  recipient : Address
  amountWei : Nat
  pullLedgerTxId : Option LedgerTxId
deriving DecidableEq

structure GatewayState (T : Type) where
  chain : StableState (World T)
  wrapRequests : OrdMap TxId WrapStoredRequest
  wrapQueue : List TxId
  wrapPendingSubmissions : OrdMap TxId StoredPrincipal
  unwrapRequests : OrdMap TxId UnwrapDispatchRequest
  unwrapDispatchQueue : SeqQueue TxId
  nativeCreditRecords : OrdMap TxId NativeCreditRecord
  wrapFeePolicy : Option FeePolicy
  wrapFactoryAddress : Option Address
  wrapNativeLedgerCanister : Option StoredPrincipal
  wrapAllowedAssets : List Principal
  wrapTasks : List (TxId × WrapTask)
  dispatchTasks : List (TxId × DispatchTask)
  calls : List LedgerCall
  ledgers : Principal → Ledger Principal
  mints : List Mint
  credits : List NativeCredit

structure WrapConfig where
  feePolicy : FeePolicy
  factoryAddress : Address
  nativeLedgerCanister : StoredPrincipal
  allowedAssets : List Principal

variable {T : Type}

namespace GatewayState

def init (world : World T) (config : WrapConfig) (ledgers : Principal → Ledger Principal) : GatewayState T where
  chain := .init world
  wrapRequests := .empty
  wrapQueue := []
  wrapPendingSubmissions := .empty
  unwrapRequests := .empty
  unwrapDispatchQueue := .empty
  nativeCreditRecords := .empty
  wrapFeePolicy := some config.feePolicy
  wrapFactoryAddress := some config.factoryAddress
  wrapNativeLedgerCanister := some config.nativeLedgerCanister
  wrapAllowedAssets := config.allowedAssets
  wrapTasks := []
  dispatchTasks := []
  calls := []
  ledgers := ledgers
  mints := []
  credits := []

def updateRequest (s : GatewayState T) (id : TxId) (f : WrapStoredRequest → WrapStoredRequest) : GatewayState T :=
  { s with wrapRequests := s.wrapRequests.modify id f }

def enqueueWrapRequestOnce (s : GatewayState T) (id : TxId) : GatewayState T :=
  if id ∈ s.wrapQueue then s else { s with wrapQueue := s.wrapQueue ++ [id] }

def clearWrapPendingSubmission (s : GatewayState T) (id : TxId) : GatewayState T :=
  { s with wrapPendingSubmissions := s.wrapPendingSubmissions.remove id }

def call (s : GatewayState T) (ledger : Principal) (transfer : Transfer Principal) (origin : CallOrigin) :
    GatewayState T :=
  { s with calls := s.calls ++ [⟨ledger, transfer, origin, none⟩] }

def suspend (s : GatewayState T) (id : TxId) (task : WrapTask) : GatewayState T :=
  { s with wrapTasks := s.wrapTasks ++ [(id, task)] }

def suspendDispatch (s : GatewayState T) (id : TxId) (task : DispatchTask) : GatewayState T :=
  { s with dispatchTasks := s.dispatchTasks ++ [(id, task)] }

end GatewayState

inductive TransferMemoKind where
  | unwrap
  | fee
  | pull
  | withdraw

def TransferMemoKind.toU8 : TransferMemoKind → UInt8
  | .unwrap => 1
  | .fee => 2
  | .pull => 3
  | .withdraw => 4

def requestMemo (c : Crypto) (id : TxId) (kind : TransferMemoKind) : Bytes :=
  (c.keccak256 ("kasane.wrap.memo.v1".toUTF8.toList ++ (kind.toU8 :: id.toList))).toList

def icrc2TransferFrom (env : Env T) (caller : StoredPrincipal) (amount : Nat) (memo : Bytes)
    (createdAtTime : Nat) : Transfer Principal :=
  ⟨caller.principal, env.canisterSelf.principal, amount, none, memo, createdAtTime⟩

def icrc1Transfer (env : Env T) (recipient : StoredPrincipal) (amount : Nat) (memo : Bytes)
    (createdAtTime : Nat) : Transfer Principal :=
  ⟨env.canisterSelf.principal, recipient.principal, amount, none, memo, createdAtTime⟩

def replyCode (failure : String) : Outcome → Except String LedgerTxId
  | .moved index _ => .ok (natToBeBytes (.ofNat index))
  | .duplicate index => .ok (natToBeBytes (.ofNat index))
  | .refused code => .error (failure ++ code)

inductive LedgerReply where
  | delivered
  | lost (code : String)

def GatewayState.reply (s : GatewayState T) (call : Nat) (failure : String) :
    LedgerReply → Option (Except String LedgerTxId)
  | .lost code => some (.error code)
  | .delivered => (s.calls[call]?).bind (fun c => c.outcome.map (replyCode failure))

def getReceipt {W : Type} (s : StableState W) (id : TxId) : Option Receipt.ReceiptLike :=
  match s.receipts.get id with
  | none => none
  | some ptr =>
      match s.blobStore.read ptr with
      | .error _ => none
      | .ok bytes =>
          let receipt := Receipt.fromBytes bytes
          if receipt.txId ≠ id ∨ receipt.txId = zeroArr 32 then none else some receipt

def expectedNonceForSenderView {W : Type} (evm : Evm W) (s : StableState W) (sender : Address) : Nat :=
  match s.senderExpectedNonce.get sender with
  | some value => value
  | none => evm.accountNonce s.world sender

def requeue (requests : List TxId) (queue : List TxId) : List TxId :=
  requests.foldl (fun queue id => if id ∈ queue then queue else queue ++ [id]) queue

end Kasane.Gateway
