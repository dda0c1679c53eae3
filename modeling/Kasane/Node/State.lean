import Kasane.Exec.Replay

namespace Kasane.Node

open BigEndian Codec Word Chain Exec

structure NativeCreditRecord where
  recipient : Address
  amountWei : ByteArr 32
deriving DecidableEq

structure AllowKey where
  bytes : Bytes
deriving DecidableEq

instance : LinearOrder AllowKey :=
  LinearOrder.lift' (fun k => digits k.bytes) (by
    rintro ⟨a⟩ ⟨b⟩ h
    exact congrArg AllowKey.mk (digits_injective h))

structure RuntimeConfig where
  configured : Bool
  wrapCanister : Principal
  wrapFactoryAddress : Address
deriving DecidableEq

structure NodeState (T : Type) where
  chain : StableState (World T)
  nativeCreditRecords : OrdMap TxId NativeCreditRecord
  queryInstructionSoftLimit : Nat
  queryPrecompileAllowlist : OrdMap AllowKey UInt8
  runtimeConfig : RuntimeConfig
  evmStateEpoch : Nat

def defaultQueryInstructionSoftLimit : Nat := 10_000_000

def defaultBlockGasLimit : Nat := 12_000_000

def defaultMinFeeFloor : Nat := 150_000_000_000

variable {T : Type}

def NodeState.init (world : World T) (config : RuntimeConfig) : NodeState T where
  chain := .init world
  nativeCreditRecords := .empty
  queryInstructionSoftLimit := defaultQueryInstructionSoftLimit
  queryPrecompileAllowlist := .empty
  runtimeConfig := config
  evmStateEpoch := 0

def bumpEvmStateEpoch (s : NodeState T) : NodeState T :=
  { s with evmStateEpoch := saturatingAdd u64Max s.evmStateEpoch 1 }

def creditAccount (db : RevmStableDb) (address : Address) (amount : Nat) :
    Option (RevmStableDb × Bool) :=
  let existing := db.accounts.get address
  let val := existing.getD ⟨0, 0, zeroArr 32⟩
  let next := val.balance + amount
  if next > u256Max then none
  else
    some ({ db with accounts := db.accounts.insert address { val with balance := next } },
      existing.isNone || decide (next ≠ val.balance))

inductive CreditError where
  | mintOverflow
  | txAlreadySeen
deriving DecidableEq, Repr

def creditWorld (s : NodeState T) (address : Address) (amount : Nat) :
    Except CreditError (NodeState T) :=
  match creditAccount s.chain.world.db address amount with
  | none => .error .mintOverflow
  | some (db, changed) =>
      let s := { s with chain := { s.chain with world := { s.chain.world with db := db } } }
      .ok (if changed then bumpEvmStateEpoch s else s)

def creditBalance (address : Address) (amount : Nat) (s : NodeState T) :
    Except CreditError (NodeState T) :=
  creditWorld s address amount

def u128FromU256Bytes (bytes : ByteArr 32) : Option Nat :=
  if decode bytes.toList ≤ u128Max then some (decode bytes.toList) else none

def creditNativeDeposit (requestId : TxId) (recipient : Address) (amountWei : ByteArr 32)
    (s : NodeState T) : Except CreditError (NodeState T) :=
  match u128FromU256Bytes amountWei with
  | none => .error .mintOverflow
  | some amount =>
      match s.nativeCreditRecords.get requestId with
      | some existing => if existing = ⟨recipient, amountWei⟩ then .ok s else .error .txAlreadySeen
      | none =>
          (creditWorld s recipient amount).map (fun s =>
            { s with
              nativeCreditRecords := s.nativeCreditRecords.insert requestId ⟨recipient, amountWei⟩ })

def clearMempoolOnUpgrade {W : Type} (s : StableState W) : StableState W :=
  { s with
    readyQueue := .empty
    readyBySeq := .empty
    readyKeyByTxId := .empty
    pendingBySenderNonce := .empty
    pendingMinNonce := .empty
    pendingMetaByTxId := .empty
    pendingCurrentBySender := .empty
    principalPendingCount := .empty
    pendingFeeIndex := .empty
    pendingFeeKeyByTxId := .empty
    senderExpectedNonce := .empty }

def syncChainRuntimeDefaults {W : Type} (s : StableState W) : StableState W :=
  { s with
    chainState := { s.chainState with
      blockGasLimit := defaultBlockGasLimit
      minGasPrice := defaultMinFeeFloor
      minPriorityFee := defaultMinFeeFloor } }

def applyInstructionSoftLimits (query update : Option Nat) (s : NodeState T) : NodeState T :=
  { s with
    queryInstructionSoftLimit := query.getD s.queryInstructionSoftLimit
    chain := { s.chain with
      chainState := { s.chain.chainState with
        updateInstructionSoftLimit := update.getD s.chain.chainState.updateInstructionSoftLimit } } }

def committedDiffs (c : Crypto) (revm : Revm) (trie : TrieCommit T) (env : CallEnv) (maxTxs : Nat)
    (s : StableState (World T)) : List StateDiff :=
  match produceBlock c (evm c revm trie) env maxTxs s,
      executeBlock c (evm c revm trie) env maxTxs s with
  | some (.ok _, _), .ok x => x.diffs
  | _, _ => []

def commitBumps (diffs : List StateDiff) (s : NodeState T) : NodeState T :=
  diffs.foldl (fun s diff => if diff.entries = [] then s else bumpEvmStateEpoch s) s

inductive NodeOp where
  | chain (op : ChainOp)
  | creditBalance (address : Address) (amount : Nat)
  | creditNativeDeposit (requestId : TxId) (recipient : Address) (amountWei : ByteArr 32)
  | clearMempoolOnUpgrade
  | syncChainRuntimeDefaults
  | applyInstructionSoftLimits (query update : Option Nat)
  | addQueryPrecompileAllowedMethod (key : AllowKey)
  | removeQueryPrecompileAllowedMethod (key : AllowKey)
  | setRuntimeConfig (config : RuntimeConfig)

def commitsOf (c : Crypto) (revm : Revm) (trie : TrieCommit T) (s : StableState (World T)) :
    ChainOp → List StateDiff
  | .produceBlock env maxTxs => committedDiffs c revm trie env maxTxs s
  | _ => []

inductive NodeOp.Runs (c : Crypto) (revm : Revm) (trie : TrieCommit T) :
    NodeOp → NodeState T → NodeState T → Prop
  | chain {op : ChainOp} {s : NodeState T} {t : StableState (World T)}
      (runs : op.Runs c (evm c revm trie) s.chain t) :
      Runs c revm trie (.chain op) s
        (commitBumps (commitsOf c revm trie s.chain op) { s with chain := t })
  | creditBalance {address : Address} {amount : Nat} {s t : NodeState T}
      (amount_fits : amount ≤ u128Max) (credits : Node.creditBalance address amount s = .ok t) :
      Runs c revm trie (.creditBalance address amount) s t
  | creditNativeDeposit {requestId : TxId} {recipient : Address} {amountWei : ByteArr 32}
      {s t : NodeState T} (credits : Node.creditNativeDeposit requestId recipient amountWei s = .ok t) :
      Runs c revm trie (.creditNativeDeposit requestId recipient amountWei) s t
  | clearMempoolOnUpgrade (s : NodeState T) :
      Runs c revm trie .clearMempoolOnUpgrade s
        { s with chain := Node.clearMempoolOnUpgrade s.chain }
  | syncChainRuntimeDefaults (s : NodeState T) :
      Runs c revm trie .syncChainRuntimeDefaults s
        { s with chain := Node.syncChainRuntimeDefaults s.chain }
  | applyInstructionSoftLimits (query update : Option Nat) (s : NodeState T) :
      Runs c revm trie (.applyInstructionSoftLimits query update) s
        (Node.applyInstructionSoftLimits query update s)
  | addQueryPrecompileAllowedMethod (key : AllowKey) (s : NodeState T) :
      Runs c revm trie (.addQueryPrecompileAllowedMethod key) s
        { s with queryPrecompileAllowlist := s.queryPrecompileAllowlist.insert key 1 }
  | removeQueryPrecompileAllowedMethod (key : AllowKey) (s : NodeState T) :
      Runs c revm trie (.removeQueryPrecompileAllowedMethod key) s
        { s with queryPrecompileAllowlist := s.queryPrecompileAllowlist.remove key }
  | setRuntimeConfig (config : RuntimeConfig) (s : NodeState T) :
      Runs c revm trie (.setRuntimeConfig config) s { s with runtimeConfig := config }

inductive NodeRun (c : Crypto) (revm : Revm) (trie : TrieCommit T)
    (allowed : NodeState T → NodeOp → Prop) (s₀ : NodeState T) : NodeState T → Prop
  | start : NodeRun c revm trie allowed s₀ s₀
  | step {s t : NodeState T} {op : NodeOp} (run : NodeRun c revm trie allowed s₀ s)
      (ok : allowed s op) (runs : op.Runs c revm trie s t) : NodeRun c revm trie allowed s₀ t

end Kasane.Node
