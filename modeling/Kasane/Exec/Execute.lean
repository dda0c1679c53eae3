import Kasane.Chain.Produce
import Kasane.Exec.Cache

namespace Kasane.Exec

open BigEndian Codec Word Chain
open Receipt (LogEntry ReceiptLike maxReturnData maxLogsPerTx maxLogTopics maxLogData)

inductive Output where
  | call (data : Bytes)
  | create (data : Bytes) (address : Option Address)

def Output.data : Output → Bytes
  | .call data => data
  | .create data _ => data

def Output.address : Output → Option Address
  | .call _ => none
  | .create _ address => address

inductive ExecutionResult where
  | success (gasUsed : UInt64) (output : Output) (logs : List LogEntry)
  | revert (gasUsed : UInt64) (output : Bytes)
  | halt (gasUsed : UInt64)

namespace ExecutionResult

def status : ExecutionResult → UInt8
  | .success _ _ _ => 1
  | .revert _ _ => 0
  | .halt _ => 0

def gasUsed : ExecutionResult → UInt64
  | .success gasUsed _ _ => gasUsed
  | .revert gasUsed _ => gasUsed
  | .halt gasUsed => gasUsed

def output : ExecutionResult → Bytes
  | .success _ output _ => output.data
  | .revert _ output => output
  | .halt _ => []

def contractAddress : ExecutionResult → Option Address
  | .success _ output _ => output.address
  | _ => none

def logs : ExecutionResult → List LogEntry
  | .success _ _ logs => logs
  | _ => []

end ExecutionResult

inductive EvmError where
  | transaction
  | header
  | database
  | custom

def mapTxErrorStage : EvmError → ExecError
  | .transaction => .txPrecheckFailed
  | .header => .txPrecheckFailed
  | .database => .other
  | .custom => .other

structure Revm where
  inspectTx : StateView → TxEnv → BlockExecContext → Except EvmError (ExecutionResult × StateDiff)
  exceeds : StateView → TxEnv → BlockExecContext → Nat → Bool
  pendingQuery : StateView → TxEnv → BlockExecContext → Bool
  traces : StateView → TxEnv → BlockExecContext → Nat → Option Bytes

def l2Fee (gasUsed effectiveGasPrice : Nat) : Nat := gasUsed * effectiveGasPrice

def totalFee (gasUsed effectiveGasPrice l1DataFee operatorFee : Nat) : Nat :=
  saturatingAdd u128Max (saturatingAdd u128Max (l2Fee gasUsed effectiveGasPrice) l1DataFee)
    operatorFee

def baseFeeReward (gasUsed baseFee : Nat) : Nat := l2Fee gasUsed baseFee

def validateExecutionResultSizes (output : Bytes) (logs : List LogEntry) : Bool :=
  decide (output.length ≤ maxReturnData) && (decide (logs.length ≤ maxLogsPerTx) &&
    logs.all (fun log =>
      decide (log.topics.length ≤ maxLogTopics) && decide (log.data.length ≤ maxLogData)))

variable (c : Crypto)

def Account.fromInfo (info : AccountInfo) : Account := ⟨info, .empty, false, false, false⟩

def addBaseFeePortionToRecipient (db : RevmStableDb) (state : StateDiff) (gasUsed baseFee : Nat) :
    StateDiff :=
  if gasUsed = 0 ∨ baseFee = 0 then state
  else if baseFeeReward gasUsed baseFee = 0 then state
  else
    let account := (state.get feeRecipient).getD
      (.fromInfo ((db.basic feeRecipient).getD (.default c)))
    state.insert feeRecipient
      { account with
        touched := true
        info := { account.info with
          balance := saturatingAdd u256Max account.info.balance (baseFeeReward gasUsed baseFee) } }

def receiptOf (txId : TxId) (txIndex : Nat) (ctx : BlockExecContext) (effectiveGasPrice : Nat)
    (result : ExecutionResult) : ReceiptLike where
  txId := txId
  blockNumber := UInt64.ofNat ctx.blockNumber
  txIndex := UInt32.ofNat txIndex
  status := result.status
  gasUsed := result.gasUsed
  effectiveGasPrice := UInt64.ofNat effectiveGasPrice
  l1DataFee := 0
  operatorFee := 0
  totalFee := BitVec.ofNat 128 (totalFee result.gasUsed.toNat effectiveGasPrice 0 0)
  returnDataHash := c.keccak256 result.output
  returnData := result.output
  contractAddress := result.contractAddress
  logs := result.logs

def budgetTripped (revm : Revm) (view : StateView) (tx : TxEnv) (ctx : BlockExecContext)
    (limit : Nat) : Bool :=
  if limit = 0 then false else revm.exceeds view tx ctx limit

def executeTxOn (revm : Revm) (db : CacheDb) (txId : TxId) (txIndex : Nat) (tx : TxEnv)
    (ctx : BlockExecContext) (instructionSoftLimit : Option Nat) :
    Except ExecError (ExecOutcome × StateDiff) × CacheDb :=
  match effectiveGasPrice tx.gasPrice (tx.gasPriorityFee.getD 0) ctx.baseFee with
  | none => (.error .invalidGasFee, db)
  | some price =>
      if budgetTripped revm (db.view c) tx ctx (instructionSoftLimit.getD 0) then
        (.error .instructionBudgetExceeded, db)
      else if revm.pendingQuery (db.view c) tx ctx then (.error .other, db)
      else
        match revm.inspectTx (db.view c) tx ctx with
        | .error e => (.error (mapTxErrorStage e), db)
        | .ok (result, state) =>
            let diff := addBaseFeePortionToRecipient c db.db state result.gasUsed.toNat ctx.baseFee
            let db' := db.commit c diff
            if validateExecutionResultSizes result.output result.logs = false then
              (.error .resultTooLarge, db')
            else
              (.ok (⟨txIndex, receiptOf c txId txIndex ctx price result,
                revm.traces (db.view c) tx ctx txIndex⟩, diff), db')

theorem executeTxOn_error {revm : Revm} {db db' : CacheDb} {txId : TxId} {txIndex : Nat}
    {tx : TxEnv} {ctx : BlockExecContext} {limit : Option Nat} {e : ExecError}
    (h : executeTxOn c revm db txId txIndex tx ctx limit = (.error e, db'))
    (he : e ≠ .resultTooLarge) : db' = db := by
  rw [executeTxOn] at h
  split at h
  · exact (Prod.mk.inj h).2.symm
  · split_ifs at h
    · exact (Prod.mk.inj h).2.symm
    · exact (Prod.mk.inj h).2.symm
    · split at h
      · exact (Prod.mk.inj h).2.symm
      · dsimp only at h
        split_ifs at h
        · exact absurd (Except.error.inj (Prod.mk.inj h).1).symm he
        · exact absurd (Prod.mk.inj h).1 (by simp)

structure Executes (revm : Revm) (db : CacheDb) (txId : TxId) (txIndex : Nat) (tx : TxEnv)
    (ctx : BlockExecContext) (outcome : ExecOutcome) (diff : StateDiff) (price : Nat)
    (result : ExecutionResult) (state : StateDiff) : Prop where
  priced : effectiveGasPrice tx.gasPrice (tx.gasPriorityFee.getD 0) ctx.baseFee = some price
  unqueried : revm.pendingQuery (db.view c) tx ctx = false
  inspected : revm.inspectTx (db.view c) tx ctx = .ok (result, state)
  sized : validateExecutionResultSizes result.output result.logs = true
  patched : diff = addBaseFeePortionToRecipient c db.db state result.gasUsed.toNat ctx.baseFee
  reported : outcome = ⟨txIndex, receiptOf c txId txIndex ctx price result,
    revm.traces (db.view c) tx ctx txIndex⟩

theorem executeTxOn_ok {revm : Revm} {db db' : CacheDb} {txId : TxId} {txIndex : Nat}
    {tx : TxEnv} {ctx : BlockExecContext} {limit : Option Nat} {outcome : ExecOutcome}
    {diff : StateDiff}
    (h : executeTxOn c revm db txId txIndex tx ctx limit = (.ok (outcome, diff), db')) :
    db' = db.commit c diff ∧
      ∃ price result state, Executes c revm db txId txIndex tx ctx outcome diff price result state := by
  rw [executeTxOn] at h
  split at h
  · exact absurd (Prod.mk.inj h).1 (by simp)
  · rename_i price hprice
    split_ifs at h with htrip hquery
    · exact absurd (Prod.mk.inj h).1 (by simp)
    · exact absurd (Prod.mk.inj h).1 (by simp)
    · split at h
      · exact absurd (Prod.mk.inj h).1 (by simp)
      · rename_i result state hinspect
        dsimp only at h
        split_ifs at h with hsizes
        · exact absurd (Prod.mk.inj h).1 (by simp)
        · obtain ⟨hok, rfl⟩ := Prod.mk.inj h
          obtain ⟨rfl, rfl⟩ := Prod.mk.inj (Except.ok.inj hok)
          exact ⟨rfl, price, result, state, hprice, by simpa using hquery, hinspect,
            by simpa using hsizes, rfl, rfl⟩

theorem executeTxOn_of_executes {revm : Revm} {db : CacheDb} {txId : TxId} {txIndex : Nat}
    {tx : TxEnv} {ctx : BlockExecContext} {outcome : ExecOutcome} {diff : StateDiff} {price : Nat}
    {result : ExecutionResult} {state : StateDiff}
    (h : Executes c revm db txId txIndex tx ctx outcome diff price result state) :
    (executeTxOn c revm db txId txIndex tx ctx none).1 = .ok (outcome, diff) := by
  simp [executeTxOn, h.priced, budgetTripped, h.unqueried, h.inspected, h.sized, h.patched, h.reported]

structure World (T : Type) where
  db : RevmStableDb
  trie : T

structure TrieCommit (T : Type) where
  Root : Type
  prepare : RevmStableDb → T → List StateDiff → Nat → ByteArr 32 → Nat → Except String Root × T
  stateRoot : Root → ByteArr 32
  apply : T → Root → T

variable {T : Type}

def evm (revm : Revm) (trie : TrieCommit T) : Evm (World T) where
  Cache := CacheDb
  Diff := StateDiff
  Root := trie.Root
  accountNonce := fun w address => ((w.db.accounts.get address).map AccountVal.nonce).getD 0
  newCache := fun w => .new c w.db
  execute := executeTxOn c revm
  cacheCommit := fun db diff => db.commit c diff
  prepare := fun w diffs number parentHash timestamp =>
    let r := trie.prepare w.db w.trie diffs number parentHash timestamp
    (r.1, { w with trie := r.2 })
  stateRoot := trie.stateRoot
  commitDiff := fun w diff => { w with db := w.db.commit c diff }
  applyRoot := fun w root => { w with trie := trie.apply w.trie root }

end Kasane.Exec
