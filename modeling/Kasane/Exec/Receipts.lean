import Kasane.Exec.ProduceCases
import Kasane.Receipt.RoundTrip

namespace Kasane.Exec

open BigEndian Codec Word Chain
open Receipt (ReceiptLike)

variable {T : Type} {c : Crypto} {revm : Revm} {trie : TrieCommit T}

def receiptsOf (included : List StagedIncluded) : List ReceiptLike :=
  included.map (fun staged => staged.outcome.receipt)

def gasSum (receipts : List ReceiptLike) : Nat :=
  (receipts.map (fun r => r.gasUsed.toNat)).sum

theorem status_le_one (result : ExecutionResult) : result.status ≤ 1 := by
  cases result with
  | success _ _ _ => exact UInt8.le_refl 1
  | revert _ _ => exact UInt8.zero_le
  | halt _ => exact UInt8.zero_le

theorem bounded_receiptOf {result : ExecutionResult} (txId : TxId) (txIndex : Nat)
    (ctx : BlockExecContext) (price : Nat)
    (h : validateExecutionResultSizes result.output result.logs = true) :
    (receiptOf c txId txIndex ctx price result).Bounded := by
  simp only [validateExecutionResultSizes, Bool.and_eq_true, decide_eq_true_eq,
    List.all_eq_true] at h
  obtain ⟨houtput, hlogs, heach⟩ := h
  exact ⟨status_le_one result, houtput, hlogs, fun log hlog => ⟨(heach log hlog).1, (heach log hlog).2⟩⟩

-- a transaction is staged under its position, and so is its receipt
structure Staged (ctx : BlockExecContext) (staged : StagedIncluded) : Prop where
  txId : staged.outcome.receipt.txId = staged.txId
  blockNumber : staged.outcome.receipt.blockNumber = UInt64.ofNat ctx.blockNumber
  txIndex : staged.outcome.receipt.txIndex = UInt32.ofNat staged.outcome.txIndex
  bounded : staged.outcome.receipt.Bounded

structure InOrder (ctx : BlockExecContext) (x : ExecState (evm c revm trie)) : Prop where
  staged : ∀ staged ∈ x.included, Staged ctx staged
  indexes : x.included.map (fun staged => staged.outcome.txIndex) = List.range x.included.length

theorem staged_executeTx {db db' : CacheDb} {txId : TxId} {txIndex : Nat} {tx : TxEnv}
    {ctx : BlockExecContext} {limit : Option Nat} {outcome : ExecOutcome} {diff : StateDiff}
    (h : executeTxOn c revm db txId txIndex tx ctx limit = (.ok (outcome, diff), db'))
    (sender : Address) (nonce : Nat) :
    Staged ctx ⟨txId, outcome, sender, nonce⟩ ∧ outcome.txIndex = txIndex := by
  obtain ⟨-, price, result, state, hdone⟩ := executeTxOn_ok c h
  rw [hdone.reported]
  exact ⟨⟨rfl, rfl, rfl, bounded_receiptOf _ _ _ _ hdone.sized⟩, rfl⟩

theorem inOrder_closed (ctx : BlockExecContext) (txs : List PreparedTx) :
    StagedClosed (evm c revm trie) ctx txs (InOrder ctx) where
  dropped := fun _ _ _ h => ⟨h.staged, h.indexes⟩
  failed := fun _ _ _ _ _ _ _ _ h _ => ⟨h.staged, h.indexes⟩
  ran := by
    intro x tx limit outcome diff cache tick _ h hrun
    obtain ⟨hstaged, hindex⟩ := staged_executeTx hrun tx.txEnv.caller tx.txEnv.nonce
    refine ⟨?_, ?_⟩
    · intro staged hmem
      rcases List.mem_append.mp hmem with hmem | hmem
      · exact h.staged staged hmem
      · obtain rfl := List.mem_singleton.mp hmem
        exact hstaged
    · rw [List.map_append, h.indexes, List.length_append, List.length_singleton, List.range_succ,
        List.map_cons, List.map_nil, hindex]

theorem inOrder_executeBlock {env : CallEnv} {maxTxs : Nat} {s : StableState (World T)}
    {x : ExecState (evm c revm trie)}
    (h : executeBlock c (evm c revm trie) env maxTxs s = .ok x) : InOrder (blockContext env s) x :=
  (inOrder_closed (blockContext env s) _).executeBlock
    (fun _ _ => ⟨fun _ hmem => absurd hmem List.not_mem_nil, rfl⟩) h

theorem InOrder.txIndex {ctx : BlockExecContext} {x : ExecState (evm c revm trie)}
    (h : InOrder ctx x) {i : Nat} {staged : StagedIncluded} (hi : x.included[i]? = some staged) :
    staged.outcome.txIndex = i := by
  have hlt : i < x.included.length := (List.getElem?_eq_some_iff.mp hi).1
  have hmap := congrArg (fun l : List Nat => l[i]?) h.indexes
  simp only [List.getElem?_map, hi, Option.map_some] at hmap
  rw [List.getElem?_range hlt] at hmap
  exact Option.some.inj hmap

end Kasane.Exec
