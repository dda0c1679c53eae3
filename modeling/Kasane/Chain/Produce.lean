import Kasane.Chain.Submit
import Mathlib.Order.OrderDual
import Mathlib.Data.List.Sort

namespace Kasane.Chain

open BigEndian Codec Word Blob

def readyCandidateLimit : Nat := 256

def maxDecodeDropsPerBlock : Nat := 128

def decodeSuppressStrikesPerBlock : Nat := 8

def decodeSuppressWindowSecs : Nat := 120

def maxDecodeSuppressPrincipals : Nat := 4096

def feeRecipient : Address :=
  ⟨[0x6b, 0x9b, 0x5f, 0xd6, 0x2c, 0xc6, 0x6f, 0xc9, 0xfe, 0xf7, 0x42, 0x10, 0xc9, 0x29, 0x8b,
    0x1b, 0x6b, 0xcb, 0xfc, 0x52], rfl⟩

structure CallEnv where
  now : Nat
  counter : Nat → Nat
  grow : Nat → Bool

def instructionConsumed (start current : Nat) : Nat := current - start

def shouldStopExecution (gasUsed gasLimit softLimit start current : Nat) : Bool :=
  decide ((gasLimit > 0 ∧ gasUsed ≥ gasLimit) ∨
    (softLimit > 0 ∧ instructionConsumed start current ≥ softLimit))

def remainingInstructionBudget (softLimit start current : Nat) : Option Nat :=
  if softLimit = 0 then none else some (softLimit - instructionConsumed start current)

def txFitsBlockGas (gasUsed gasLimit txGasLimit : Nat) : Bool :=
  decide (gasLimit = 0 ∨ txGasLimit ≤ gasLimit - gasUsed)

def computeNextBaseFee (baseFee gasUsed blockGasLimit : Nat) : Nat :=
  let gasTarget := blockGasLimit / 2
  if gasTarget = 0 then baseFee
  else if gasUsed = gasTarget then baseFee
  else if gasUsed > gasTarget then
    let change := baseFee * (gasUsed - gasTarget) / gasTarget / 8
    min (saturatingAdd u128Max baseFee (max change 1)) u64Max
  else
    let change := baseFee * (gasTarget - gasUsed) / gasTarget / 8
    let next := baseFee - change
    if next ≤ u64Max then next else 0

structure ReadyCandidate where
  txId : TxId
  effectiveGasPrice : Nat
  seq : Nat
deriving DecidableEq

instance : LinearOrder ReadyCandidate :=
  LinearOrder.lift'
    (fun k => toLex (k.effectiveGasPrice, toLex (OrderDual.toDual k.seq, OrderDual.toDual k.txId)))
    (by
      rintro ⟨a, b, d⟩ ⟨a', b', d'⟩ h
      simp only [toLex_inj, Prod.mk.injEq, OrderDual.toDual_inj] at h
      simp [h])

def pushTopKCandidate (maxTxs : Nat) (heap : List ReadyCandidate) (candidate : ReadyCandidate) :
    List ReadyCandidate :=
  if heap.length < maxTxs then candidate :: heap
  else
    match heap.min? with
    | none => heap
    | some worst => if candidate > worst then candidate :: heap.erase worst else heap

def selectTopKReadyCandidates (candidates : List ReadyCandidate) (maxTxs : Nat) : List TxId :=
  if maxTxs = 0 then []
  else
    ((candidates.foldl (pushTopKCandidate maxTxs) []).mergeSort (fun a b => decide (b ≤ a))).map
      ReadyCandidate.txId

structure QueuedDrop where
  txId : TxId
  code : DropCode
  senderOverride : Option Address
  nonceOverride : Option Nat

structure PreparedTx where
  txId : TxId
  txEnv : TxEnv

inductive PreparedItem where
  | drop (d : QueuedDrop)
  | tx (t : PreparedTx)

def PreparedItem.drops : List PreparedItem → List QueuedDrop
  | [] => []
  | .drop d :: rest => d :: drops rest
  | .tx _ :: rest => drops rest

def PreparedItem.txs : List PreparedItem → List PreparedTx
  | [] => []
  | .drop _ :: rest => txs rest
  | .tx t :: rest => t :: txs rest

variable {W : Type} (c : Crypto) (evm : Evm W)

def readyCandidate (s : StableState W) (baseFee : Nat) (key : ReadyKey) (id : TxId) :
    ReadyCandidate :=
  match loadFeeFieldsAndSeq c s id with
  | .fields maxFee maxPriority isDynamicFee seq =>
      ⟨id, (effectiveGasPrice maxFee (if isDynamicFee then maxPriority else 0) baseFee).getD 0, seq⟩
  | _ => ⟨id, 0, key.seq⟩

def selectReadyCandidates (s : StableState W) (baseFee maxTxs : Nat) : List TxId :=
  if maxTxs = 0 then []
  else
    selectTopKReadyCandidates
      ((s.readyQueue.entries.take readyCandidateLimit).map
        (fun e => readyCandidate c s baseFee e.1 e.2)) maxTxs

def trimSuppressed : Nat → OrdMap Principal Nat → OrdMap Principal Nat
  | 0, m => m
  | fuel + 1, m =>
      if m.len ≥ maxDecodeSuppressPrincipals then
        match m.first with
        | none => m
        | some (oldest, _) => trimSuppressed fuel (m.remove oldest)
      else m

def noteDecodeDropForPrincipal (s : StableState W) (strikes : OrdMap Principal Nat)
    (principal : Principal) (now : Nat) : StableState W × OrdMap Principal Nat :=
  if principal.bytes = [] then (s, strikes)
  else
    let count := saturatingAdd (2 ^ 16 - 1) ((strikes.get principal).getD 0) 1
    let strikes := strikes.insert principal count
    if count < decodeSuppressStrikesPerBlock then (s, strikes)
    else
      let m := s.decodeSuppressUntil
      let m :=
        if m.len ≥ maxDecodeSuppressPrincipals then
          let m := expireSuppressed m now
          trimSuppressed m.len m
        else m
      let until_ := saturatingAdd u64Max now decodeSuppressWindowSecs
      ({ s with decodeSuppressUntil := m.insert principal until_ }, strikes)

structure PrepareState (W : Type) where
  state : StableState W
  tick : Nat
  prepared : List PreparedItem
  decodeDrops : Nat
  strikes : OrdMap Principal Nat

inductive Preparation where
  | ready (tx : TxEnv)
  | dropped (code : DropCode) (senderOverride : Option Address) (nonceOverride : Option Nat)
  | suppressed
  | undecodable (code : DropCode)
  | decodeDrop (code : DropCode) (senderOverride : Option Address) (principal : Principal)

def checkPrepared (s : StableState W) (baseFee : Nat) (tx : TxEnv) : Preparation :=
  if minFeeSatisfied tx.gasPrice tx.gasPriorityFee baseFee s.chainState.minPriorityFee
      s.chainState.minGasPrice = false then
    .dropped .invalidFee (some tx.caller) (some tx.nonce)
  else
    match effectiveGasPrice tx.gasPrice (tx.gasPriorityFee.getD 0) baseFee with
    | none => .dropped .invalidFee (some tx.caller) (some tx.nonce)
    | some _ => .ready tx

def prepareStored (s : StableState W) (baseFee : Nat) (stored : StoredTx) : Preparation :=
  match stored.kind, stored.callerEvm with
  | .icSynthetic, none => .decodeDrop .callerMissing none stored.callerPrincipal
  | kind, callerEvm =>
      let caller := if kind = .icSynthetic then callerEvm.getD (zeroArr 20) else zeroArr 20
      match decodeTx c kind caller stored.raw with
      | none => .decodeDrop .decode (some caller) stored.callerPrincipal
      | some tx => checkPrepared s baseFee tx

def prepareCandidate (s : StableState W) (baseFee timestamp : Nat) (id : TxId) :
    Preparation × StableState W :=
  match storedTx c s id with
  | none => (.dropped .missing none none, s)
  | some (.error .missingCaller) => (.undecodable .callerMissing, s)
  | some (.error _) => (.undecodable .decode, s)
  | some (.ok stored) =>
      match isPrincipalDecodeSuppressed s stored.callerPrincipal timestamp with
      | (true, s) => (.suppressed, s)
      | (false, s) => (prepareStored c s baseFee stored, s)

def recordPreparation (timestamp : Nat) (id : TxId) (p : PrepareState W) :
    Preparation → PrepareState W
  | .ready tx => { p with prepared := p.prepared ++ [.tx ⟨id, tx⟩] }
  | .dropped code sender nonce => { p with prepared := p.prepared ++ [.drop ⟨id, code, sender, nonce⟩] }
  | .suppressed => { p with prepared := p.prepared ++ [.drop ⟨id, .decode, none, none⟩] }
  | .undecodable code =>
      { p with
        prepared := p.prepared ++ [.drop ⟨id, code, none, none⟩]
        decodeDrops := p.decodeDrops + 1 }
  | .decodeDrop code sender principal =>
      let (s, strikes) := noteDecodeDropForPrincipal p.state p.strikes principal timestamp
      { p with
        state := s
        prepared := p.prepared ++ [.drop ⟨id, code, sender, none⟩]
        decodeDrops := p.decodeDrops + 1
        strikes := strikes }

def stopsPreparing (p : PrepareState W) : Preparation → Bool
  | .undecodable _ | .decodeDrop _ _ _ => decide (p.decodeDrops ≥ maxDecodeDropsPerBlock)
  | _ => false

def prepareCandidates (env : CallEnv) (ctx : BlockExecContext) (softLimit start : Nat) :
    List TxId → PrepareState W → PrepareState W
  | [], p => p
  | id :: rest, p =>
      let stop (tick : Nat) := shouldStopExecution 0 ctx.blockGasLimit softLimit start (env.counter tick)
      if stop p.tick then p
      else
        let (result, s) := prepareCandidate c p.state ctx.baseFee ctx.timestamp id
        let p := recordPreparation ctx.timestamp id { p with state := s, tick := p.tick + 1 } result
        match result with
        | .ready _ =>
            if stop p.tick then { p with tick := p.tick + 1 }
            else prepareCandidates env ctx softLimit start rest { p with tick := p.tick + 1 }
        | result =>
            if stopsPreparing p result then p
            else prepareCandidates env ctx softLimit start rest p

structure StagedIncluded where
  txId : TxId
  outcome : ExecOutcome
  sender : Address
  nonce : Nat

structure ExecState (evm : Evm W) where
  cache : evm.Cache
  tick : Nat
  gasUsed : Nat
  drops : List QueuedDrop
  diffs : List evm.Diff
  included : List StagedIncluded

def ExecError.dropCode : ExecError → DropCode
  | .invalidGasFee => .invalidFee
  | .resultTooLarge => .resultTooLarge
  | .instructionBudgetExceeded => .instructionBudget
  | .txPrecheckFailed => .execPrecheck
  | .other => .exec

def queuedDrop (tx : PreparedTx) (code : DropCode) : QueuedDrop :=
  ⟨tx.txId, code, some tx.txEnv.caller, some tx.txEnv.nonce⟩

def executeStaged (env : CallEnv) (ctx : BlockExecContext) (softLimit start : Nat) :
    List PreparedTx → ExecState evm → Except ChainError (ExecState evm)
  | [], x => .ok x
  | tx :: rest, x =>
      let now := env.counter x.tick
      let budget := remainingInstructionBudget softLimit start now
      if shouldStopExecution x.gasUsed ctx.blockGasLimit softLimit start now then .ok x
      else if budget = some 0 then .ok x
      else if txFitsBlockGas x.gasUsed ctx.blockGasLimit tx.txEnv.gasLimit = false then
        executeStaged env ctx softLimit start rest
          { x with tick := x.tick + 1, drops := x.drops ++ [queuedDrop tx .blockGasExceeded] }
      else if x.included.length > u32Max then .error (.invariantViolation "tx_index.overflow")
      else
        match evm.execute x.cache tx.txId x.included.length tx.txEnv ctx budget with
        | (.error e, cache) =>
            executeStaged env ctx softLimit start rest
              { x with
                cache := cache
                tick := x.tick + 1
                drops := x.drops ++ [queuedDrop tx e.dropCode] }
        | (.ok (outcome, diff), cache) =>
            let x : ExecState evm :=
              { cache := evm.cacheCommit cache diff
                tick := x.tick + 2
                gasUsed := saturatingAdd u64Max x.gasUsed outcome.receipt.gasUsed.toNat
                drops := x.drops
                diffs := x.diffs ++ [diff]
                included := x.included ++ [⟨tx.txId, outcome, tx.txEnv.caller, tx.txEnv.nonce⟩] }
            if shouldStopExecution x.gasUsed ctx.blockGasLimit softLimit start
                (env.counter (x.tick - 1)) then .ok x
            else executeStaged env ctx softLimit start rest x

def applyDrop (s : StableState W) (d : QueuedDrop) : StableState W :=
  dropPending c evm s d.txId d.code d.senderOverride d.nonceOverride

def applyDrops (s : StableState W) (drops : List QueuedDrop) : StableState W :=
  drops.foldl (applyDrop c evm) s

structure StagedPersist where
  staged : StagedIncluded
  txIndexPtr : BlobPtr
  receiptPtr : BlobPtr
  internalTracesPtr : Option BlobPtr

def txIndexBytes (blockNumber txIndex : Nat) : Bytes := encode 8 blockNumber ++ encode 4 txIndex

def storeBytes (env : CallEnv) (s : StableState W) (bytes : Bytes) :
    Option (BlobPtr × StableState W) :=
  match s.blobStore.storeBytes env.grow bytes with
  | (.ok ptr, blobs) => some (ptr, { s with blobStore := blobs })
  | (.error _, _) => none

def storeInternalTraces (env : CallEnv) (s : StableState W) :
    Option Bytes → Option (Option BlobPtr × StableState W)
  | none => some (none, s)
  | some bytes => (storeBytes env s bytes).map (fun r => (some r.1, r.2))

def persistIncluded (env : CallEnv) (number : Nat) (s : StableState W) (staged : StagedIncluded) :
    Option (StagedPersist × StableState W) := do
  let (txIndexPtr, s) ← storeBytes env s (txIndexBytes number staged.outcome.txIndex)
  let (receiptPtr, s) ← storeBytes env s (Receipt.toBytes staged.outcome.receipt)
  let (tracesPtr, s) ← storeInternalTraces env s staged.outcome.internalTraces
  pure (⟨staged, txIndexPtr, receiptPtr, tracesPtr⟩, s)

def persistAll (env : CallEnv) (number : Nat) :
    List StagedIncluded → StableState W → Option (List StagedPersist × StableState W)
  | [], s => some ([], s)
  | staged :: rest, s => do
      let (persisted, s) ← persistIncluded env number s staged
      let (tail, s) ← persistAll env number rest s
      pure (persisted :: tail, s)

def storeBlock (env : CallEnv) (s : StableState W) (block : BlockData) :
    Option (BlobPtr × StableState W) :=
  (storeBytes env s block.toBytes).map (fun r =>
    (r.1, if r.2.oldestBlock = none then
        { r.2 with oldestBlock := some (block.number.toNat, block.timestamp.toNat) }
      else r.2))

def includeTx (number : Nat) (s : StableState W) (p : StagedPersist) : StableState W :=
  let id := p.staged.txId
  let s := { s with
    txIndex := s.txIndex.insert id p.txIndexPtr
    receipts := s.receipts.insert id p.receiptPtr
    internalTraces := match p.internalTracesPtr with
      | some ptr => s.internalTraces.insert id ptr
      | none => s.internalTraces }
  let s := txLocsInsert s id (TxLoc.included number p.staged.outcome.txIndex)
  advanceSender c evm s id (some p.staged.sender) (some p.staged.nonce) true

def txListHash (ids : List TxId) : ByteArr 32 := c.keccak256 (0x00 :: arrayBytes ids)

def blockHash (parentHash : ByteArr 32) (number timestamp : Nat) (listHash root : ByteArr 32) :
    ByteArr 32 :=
  c.keccak256 (0x01 :: (parentHash.toList ++ (encode 8 number ++ (encode 8 timestamp ++
    (listHash.toList ++ root.toList)))))

structure ProduceBlockOutcome where
  block : BlockData
  gasUsed : Nat
  dropped : Nat

def makeBlock (parentHash : ByteArr 32) (ctx : BlockExecContext) (gasUsed : Nat) (ids : List TxId)
    (root : ByteArr 32) : BlockData :=
  let listHash := txListHash c ids
  { number := UInt64.ofNat ctx.blockNumber
    parentHash := parentHash
    blockHash := blockHash c parentHash ctx.blockNumber ctx.timestamp listHash root
    timestamp := UInt64.ofNat ctx.timestamp
    baseFeePerGas := UInt64.ofNat ctx.baseFee
    blockGasLimit := UInt64.ofNat ctx.blockGasLimit
    gasUsed := UInt64.ofNat gasUsed
    beneficiary := feeRecipient
    txIds := ids
    txListHash := listHash
    stateRoot := root }

def commitBlock (env : CallEnv) (ctx : BlockExecContext) (gasUsed : Nat) (block : BlockData)
    (drops : List QueuedDrop) (included : List StagedIncluded) (s : StableState W) :
    Option (StableState W) := do
  let s := applyDrops c evm s drops
  let (persisted, s) ← persistAll env ctx.blockNumber included s
  let (blockPtr, s) ← storeBlock env s block
  let s := persisted.foldl (includeTx c evm ctx.blockNumber) s
  let baseFee := computeNextBaseFee s.chainState.baseFee gasUsed s.chainState.blockGasLimit
  let s := { s with
    blocks := s.blocks.insert ctx.blockNumber blockPtr
    head := ⟨ctx.blockNumber, block.blockHash, ctx.timestamp⟩
    chainState := { s.chainState with
      lastBlockNumber := ctx.blockNumber
      lastBlockTime := ctx.timestamp
      baseFee := baseFee } }
  pure (rebuildPendingFeeIndexForBaseFee c s baseFee)

def produceBlock (env : CallEnv) (maxTxs : Nat) (s : StableState W) :
    Option (Except ChainError ProduceBlockOutcome × StableState W) :=
  if maxTxs = 0 then some (.error .invalidLimit, s)
  else
    let number := saturatingAdd u64Max s.head.number 1
    let timestamp := max (saturatingAdd u64Max s.head.timestamp 1) env.now
    let parentHash := s.head.blockHash
    let ctx : BlockExecContext :=
      ⟨number, timestamp, s.chainState.baseFee, s.chainState.blockGasLimit⟩
    let softLimit := s.chainState.updateInstructionSoftLimit
    let ids := selectReadyCandidates c s s.chainState.baseFee maxTxs
    if ids = [] then some (.error .queueEmpty, s)
    else
      let start := env.counter 0
      let p := prepareCandidates c env ctx softLimit start ids ⟨s, 1, [], 0, .empty⟩
      let s := p.state
      let drops := PreparedItem.drops p.prepared
      let txs := PreparedItem.txs p.prepared
      if txs = [] then some (.error .noExecutableTx, applyDrops c evm s drops)
      else
        match executeStaged evm env ctx softLimit start txs
            ⟨evm.newCache s.world, p.tick, 0, drops, [], []⟩ with
        | .error e => some (.error e, s)
        | .ok x =>
            if x.included = [] then some (.error .noExecutableTx, applyDrops c evm s x.drops)
            else
              match evm.prepare s.world x.diffs number parentHash timestamp with
              | (.error reason, world) =>
                  some (.error (.invariantViolation reason), { s with world := world })
              | (.ok root, world) =>
                  let world := evm.applyRoot (x.diffs.foldl evm.commitDiff world) root
                  let block := makeBlock c parentHash ctx x.gasUsed
                    (x.included.map StagedIncluded.txId) (evm.stateRoot root)
                  (commitBlock c evm env ctx x.gasUsed block x.drops x.included
                    { s with world := world }).map
                    (fun s => (.ok ⟨block, x.gasUsed, x.drops.length⟩, s))

end Kasane.Chain
