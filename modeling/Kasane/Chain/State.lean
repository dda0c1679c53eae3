import Kasane.Blob.Store
import Kasane.Chain.Block
import Kasane.Receipt.Codec

namespace Kasane.Chain

open BigEndian Codec Word Blob

structure ReadyKey where
  maxFeeInv : Nat
  maxPriorityInv : Nat
  seq : Nat
  txHash : TxId
deriving DecidableEq

instance : LinearOrder ReadyKey :=
  LinearOrder.lift'
    (fun k => toLex (k.maxFeeInv, toLex (k.maxPriorityInv, toLex (k.seq, k.txHash)))) (by
      rintro ⟨a, b, c, d⟩ ⟨a', b', c', d'⟩ h
      simpa using h)

def ReadyKey.new (maxFeePerGas maxPriorityFeePerGas seq : Nat) (txHash : TxId) : ReadyKey :=
  ⟨u128Max - maxFeePerGas, u128Max - maxPriorityFeePerGas, seq, txHash⟩

structure ReadySeqKey where
  seq : Nat
  txHash : TxId
deriving DecidableEq

instance : LinearOrder ReadySeqKey :=
  LinearOrder.lift' (fun k => toLex (k.seq, k.txHash)) (by
    rintro ⟨a, b⟩ ⟨a', b'⟩ h
    simpa using h)

structure PendingFeeKey where
  effectiveGasPrice : Nat
  txHash : TxId
deriving DecidableEq

instance : LinearOrder PendingFeeKey :=
  LinearOrder.lift' (fun k => toLex (k.effectiveGasPrice, k.txHash)) (by
    rintro ⟨a, b⟩ ⟨a', b'⟩ h
    simpa using h)

structure SenderNonceKey where
  sender : Address
  nonce : Nat
deriving DecidableEq

instance : LinearOrder SenderNonceKey :=
  LinearOrder.lift' (fun k => toLex (k.sender, k.nonce)) (by
    rintro ⟨a, b⟩ ⟨a', b'⟩ h
    simpa using h)

def callerKeyLen : Nat := 30

abbrev CallerKey := ByteArr callerKeyLen

def CallerKey.fromPrincipalBytes (p : Principal) : CallerKey :=
  ⟨UInt8.ofNat p.bytes.length :: (p.bytes ++ List.replicate (maxPrincipalLen - p.bytes.length) 0), by
    have h := p.bounded
    simp only [List.length_cons, List.length_append, List.length_replicate, callerKeyLen,
      maxPrincipalLen] at h ⊢
    omega⟩

inductive TxLocKind where
  | queued
  | included
  | dropped
deriving DecidableEq, Repr

structure TxLoc where
  kind : TxLocKind
  seq : Nat
  blockNumber : Nat
  txIndex : Nat
  dropCode : Nat
deriving DecidableEq, Repr

def TxLoc.queued (seq : Nat) : TxLoc := ⟨.queued, seq, 0, 0, 0⟩

def TxLoc.included (blockNumber txIndex : Nat) : TxLoc := ⟨.included, 0, blockNumber, txIndex, 0⟩

def TxLoc.dropped (code : Nat) : TxLoc := ⟨.dropped, 0, 0, 0, code⟩

def TxLoc.isDecodeFailurePlaceholder (loc : TxLoc) : Bool :=
  decide (loc.kind = .queued ∧ loc.seq = u64Max)

structure QueueMeta where
  head : Nat
  tail : Nat
deriving DecidableEq, Repr

def QueueMeta.push (q : QueueMeta) : Nat × QueueMeta :=
  (q.tail, { q with tail := saturatingAdd u64Max q.tail 1 })

structure DroppedRingState where
  nextSeq : Nat
  len : Nat
deriving DecidableEq, Repr

structure ChainState where
  lastBlockNumber : Nat
  lastBlockTime : Nat
  nextQueueSeq : Nat
  baseFee : Nat
  minGasPrice : Nat
  minPriorityFee : Nat
  blockGasLimit : Nat
  updateInstructionSoftLimit : Nat
deriving DecidableEq, Repr

def ChainState.new : ChainState where
  lastBlockNumber := 0
  lastBlockTime := 0
  nextQueueSeq := 0
  baseFee := 250_000_000_000
  minGasPrice := 150_000_000_000
  minPriorityFee := 150_000_000_000
  blockGasLimit := 12_000_000
  updateInstructionSoftLimit := 4_000_000_000

structure Head where
  number : Nat
  blockHash : ByteArr 32
  timestamp : Nat
deriving DecidableEq

structure PruneState where
  prunedBeforeBlock : Nat
  nextPruneBlock : Nat
  journalBlockNumber : Nat
deriving DecidableEq, Repr

namespace PruneState

def new : PruneState := ⟨u64Max, 0, u64Max⟩

def prunedBefore (p : PruneState) : Option Nat :=
  if p.prunedBeforeBlock = u64Max then none else some p.prunedBeforeBlock

def setPrunedBefore (p : PruneState) (value : Nat) : PruneState :=
  { p with prunedBeforeBlock := value }

def journalBlock (p : PruneState) : Option Nat :=
  if p.journalBlockNumber = u64Max then none else some p.journalBlockNumber

def setJournalBlock (p : PruneState) (value : Nat) : PruneState :=
  { p with journalBlockNumber := value }

def clearJournal (p : PruneState) : PruneState :=
  { p with journalBlockNumber := u64Max }

end PruneState

def maxPtrs : Nat := 1 + 3 * maxTxsPerBlock

def journalStored (ptrs : List BlobPtr) : List BlobPtr :=
  if ptrs.length > maxPtrs then [] else ptrs

structure StableState (W : Type) where
  world : W
  chainState : ChainState
  head : Head
  queueMeta : QueueMeta
  seenTx : OrdMap TxId UInt8
  txStore : OrdMap TxId StoredTxBytes
  txLocs : OrdMap TxId TxLoc
  ethTxHashIndex : OrdMap TxId TxId
  pendingBySenderNonce : OrdMap SenderNonceKey TxId
  pendingMetaByTxId : OrdMap TxId SenderNonceKey
  pendingCurrentBySender : OrdMap Address TxId
  pendingMinNonce : OrdMap Address Nat
  senderExpectedNonce : OrdMap Address Nat
  readyQueue : OrdMap ReadyKey TxId
  readyBySeq : OrdMap ReadySeqKey TxId
  readyKeyByTxId : OrdMap TxId ReadyKey
  pendingFeeIndex : OrdMap PendingFeeKey TxId
  pendingFeeKeyByTxId : OrdMap TxId PendingFeeKey
  principalPendingCount : OrdMap CallerKey Nat
  droppedRing : OrdMap Nat TxId
  droppedRingState : DroppedRingState
  blobStore : BlobStore
  blocks : OrdMap Nat BlobPtr
  receipts : OrdMap TxId BlobPtr
  txIndex : OrdMap TxId BlobPtr
  internalTraces : OrdMap TxId BlobPtr
  pruneJournal : OrdMap Nat (List BlobPtr)
  pruneState : PruneState
  oldestBlock : Option (Nat × Nat)
  decodeSuppressUntil : OrdMap Principal Nat

def StableState.init {W : Type} (world : W) : StableState W where
  world := world
  chainState := .new
  head := ⟨0, zeroArr 32, 0⟩
  queueMeta := ⟨0, 0⟩
  seenTx := .empty
  txStore := .empty
  txLocs := .empty
  ethTxHashIndex := .empty
  pendingBySenderNonce := .empty
  pendingMetaByTxId := .empty
  pendingCurrentBySender := .empty
  pendingMinNonce := .empty
  senderExpectedNonce := .empty
  readyQueue := .empty
  readyBySeq := .empty
  readyKeyByTxId := .empty
  pendingFeeIndex := .empty
  pendingFeeKeyByTxId := .empty
  principalPendingCount := .empty
  droppedRing := .empty
  droppedRingState := ⟨0, 0⟩
  blobStore := .empty
  blocks := .empty
  receipts := .empty
  txIndex := .empty
  internalTraces := .empty
  pruneJournal := .empty
  pruneState := .new
  oldestBlock := none
  decodeSuppressUntil := .empty

structure BlockExecContext where
  blockNumber : Nat
  timestamp : Nat
  baseFee : Nat
  blockGasLimit : Nat
deriving DecidableEq, Repr

inductive ExecError where
  | invalidGasFee
  | resultTooLarge
  | instructionBudgetExceeded
  | txPrecheckFailed
  | other
deriving DecidableEq, Repr

structure ExecOutcome where
  txIndex : Nat
  receipt : Receipt.ReceiptLike
  internalTraces : Option Bytes

structure Evm (W : Type) where
  Cache : Type
  Diff : Type
  Root : Type
  accountNonce : W → Address → Nat
  newCache : W → Cache
  execute : Cache → TxId → Nat → TxEnv → BlockExecContext → Option Nat →
    Except ExecError (ExecOutcome × Diff) × Cache
  cacheCommit : Cache → Diff → Cache
  prepare : W → List Diff → Nat → ByteArr 32 → Nat → Except String Root × W
  stateRoot : Root → ByteArr 32
  commitDiff : W → Diff → W
  applyRoot : W → Root → W

inductive ChainError where
  | txAlreadySeen
  | queueEmpty
  | txTooLarge
  | invalidLimit
  | decodeFailed
  | addressDerivationFailed
  | invalidFee
  | nonceTooLow
  | nonceGap
  | nonceConflict
  | queueFull
  | senderQueueFull
  | principalQueueFull
  | decodeRateLimited
  | execFailed
  | invariantViolation (reason : String)
  | noExecutableTx
deriving DecidableEq, Repr

variable {W : Type}

def txLocsGet (s : StableState W) (id : TxId) : Option TxLoc :=
  (s.txLocs.get id).filter (fun loc => !loc.isDecodeFailurePlaceholder)

def txLocsInsert (s : StableState W) (id : TxId) (loc : TxLoc) : StableState W :=
  { s with txLocs := s.txLocs.insert id loc }

def txLocsRemove (s : StableState W) (id : TxId) : StableState W :=
  { s with txLocs := s.txLocs.remove id }

def storedTx (c : Crypto) (s : StableState W) (id : TxId) : Option (Except StoredTxError StoredTx) :=
  (s.txStore.get id).map (StoredTx.tryFrom c)

def removeEthTxHashIndexForTxId (c : Crypto) (s : StableState W) (id : TxId) : StableState W :=
  match storedTx c s id with
  | some (.ok stored) =>
      if stored.kind ≠ .ethSigned then s
      else { s with ethTxHashIndex := s.ethTxHashIndex.remove (c.keccak256 stored.raw) }
  | _ => s

def insertEthTxHashIndexForEnvelope (c : Crypto) (s : StableState W) (id : TxId)
    (envelope : StoredTxBytes) : StableState W :=
  match StoredTx.tryFrom c envelope with
  | .ok stored =>
      if stored.kind ≠ .ethSigned then s
      else { s with ethTxHashIndex := s.ethTxHashIndex.insert (c.keccak256 stored.raw) id }
  | .error _ => s

def loadBlock (s : StableState W) (number : Nat) : Option BlockData :=
  match s.blocks.get number with
  | none => none
  | some ptr =>
      match s.blobStore.read ptr with
      | .error _ => none
      | .ok bytes =>
          let block := BlockData.fromBytes bytes
          if isCorruptBlock block then none else some block

end Kasane.Chain
