import Kasane.Lib.TopK
import Kasane.Node.Runs

namespace Kasane.Node

open Chain Exec

variable {W T : Type} {c : Crypto} {revm : Revm} {trie : TrieCommit T}

abbrev Precedes (a b : ReadyCandidate) : Prop :=
  a.effectiveGasPrice > b.effectiveGasPrice ∨ a.effectiveGasPrice = b.effectiveGasPrice ∧
    (a.seq < b.seq ∨ a.seq = b.seq ∧ a.txId ≤ b.txId)

theorem precedes_iff (a b : ReadyCandidate) : Precedes a b ↔ b ≤ a := by
  have hle : b ≤ a ↔
      toLex (b.effectiveGasPrice, toLex (OrderDual.toDual b.seq, OrderDual.toDual b.txId)) ≤
        toLex (a.effectiveGasPrice, toLex (OrderDual.toDual a.seq, OrderDual.toDual a.txId)) :=
    Iff.rfl
  rw [hle, Prod.Lex.toLex_le_toLex, Prod.Lex.toLex_le_toLex, OrderDual.toDual_lt_toDual,
    OrderDual.toDual_le_toDual, OrderDual.toDual_inj]
  simp only [Precedes, gt_iff_lt, eq_comm]

def readyCandidates (c : Crypto) (s : StableState W) (baseFee : Nat) : List ReadyCandidate :=
  (s.readyQueue.entries.take readyCandidateLimit).map (fun e => readyCandidate c s baseFee e.1 e.2)

def rankedCandidates (candidates : List ReadyCandidate) : List ReadyCandidate :=
  candidates.mergeSort (fun a b => decide (Precedes a b))

theorem rankedCandidates_eq (candidates : List ReadyCandidate) :
    rankedCandidates candidates = TopK.best candidates := by
  have hsame : (fun a b : ReadyCandidate => decide (Precedes a b)) = fun a b => decide (b ≤ a) := by
    funext a b
    exact decide_eq_decide.mpr (precedes_iff a b)
  rw [rankedCandidates, hsame, TopK.best]

theorem pushTopKCandidate_eq (maxTxs : Nat) :
    pushTopKCandidate maxTxs = TopK.push maxTxs := by
  funext heap candidate
  have hdec : instDecidableEqReadyCandidate = instLinearOrderReadyCandidate.toDecidableEq :=
    Subsingleton.elim _ _
  rw [pushTopKCandidate, TopK.push, hdec]
  cases heap.min? with
  | none => rfl
  | some worst => rfl

theorem selectTopK_eq (candidates : List ReadyCandidate) (maxTxs : Nat) :
    selectTopKReadyCandidates candidates maxTxs =
      ((rankedCandidates candidates).take maxTxs).map ReadyCandidate.txId := by
  rw [selectTopKReadyCandidates]
  split_ifs with hzero
  · rw [hzero, List.take_zero, List.map_nil]
  · rw [rankedCandidates_eq, ← TopK.best_foldl_push, pushTopKCandidate_eq]
    rfl

theorem selectReady_eq (s : StableState W) (baseFee maxTxs : Nat) :
    selectReadyCandidates c s baseFee maxTxs =
      selectTopKReadyCandidates (readyCandidates c s baseFee) maxTxs := by
  rw [selectReadyCandidates]
  split_ifs with hzero
  · rw [selectTopKReadyCandidates, if_pos hzero]
  · rfl

theorem selectTopK_perm {candidates met : List ReadyCandidate} (h : met.Perm candidates)
    (maxTxs : Nat) :
    selectTopKReadyCandidates met maxTxs = selectTopKReadyCandidates candidates maxTxs := by
  rw [selectTopK_eq, selectTopK_eq, rankedCandidates_eq, rankedCandidates_eq, TopK.best_congr h]

theorem nodup_selectReady {allowed : NodeState T → NodeOp → Prop} {world : World T}
    {config : RuntimeConfig} {s : NodeState T}
    (run : NodeRun c revm trie allowed (.init world config) s) (baseFee maxTxs : Nat) :
    (selectReadyCandidates c s.chain baseFee maxTxs).Nodup := by
  obtain ⟨p, h⟩ := consistent_nodeRun run
  exact (pending_selectReady h.indexed baseFee maxTxs).nodup

theorem select_ready_candidates_sorted (c : Crypto) (revm : Revm) (trie : TrieCommit T)
    (s : StableState (World T)) (baseFee maxTxs : Nat) :
    selectReadyCandidates c s baseFee maxTxs =
        ((rankedCandidates (readyCandidates c s baseFee)).take maxTxs).map ReadyCandidate.txId ∧
      (∀ met : List ReadyCandidate, met.Perm (readyCandidates c s baseFee) →
        selectTopKReadyCandidates met maxTxs = selectReadyCandidates c s baseFee maxTxs) ∧
      (((s.readyQueue.entries.take readyCandidateLimit).map Prod.snd).Nodup →
        (selectReadyCandidates c s baseFee maxTxs).Nodup) ∧
      (∀ allowed world config node, NodeRun c revm trie allowed (.init world config) node →
        node.chain = s → (selectReadyCandidates c s baseFee maxTxs).Nodup) := by
  refine ⟨?_, ?_, ?_, ?_⟩
  · rw [selectReady_eq, selectTopK_eq]
  · intro met hmet
    rw [selectReady_eq, selectTopK_perm hmet]
  · intro hqueue
    obtain ⟨kept, hkept, hsub⟩ := subperm_selectReady (c := c) s baseFee maxTxs
    exact hkept.nodup_iff.mp (hqueue.sublist hsub)
  · rintro allowed world config node run rfl
    exact nodup_selectReady run baseFee maxTxs

end Kasane.Node
