import Kasane.Chain.PruneProgress
import Kasane.Node.PruneFrame

namespace Kasane.Node

open BigEndian Codec Word Blob Chain Exec

variable {T : Type} {c : Crypto} {revm : Revm} {trie : TrieCommit T}

theorem prune_progress_iff {world : World T} {init : RuntimeConfig} {s : NodeState T}
    (run : NodeRun c revm trie Uninterrupted (.init world init) s) {policy : PrunePolicy}
    {config : PruneConfig} (accepted : setPrunePolicy policy = .ok config) {retain boundary : Nat}
    (outside : pruneBeforeBlock s.chain.head.number retain = some boundary)
    (stored : ∃ n, n ≤ boundary ∧ (s.chain.blocks.get n).isSome) :
    (Forward s.chain (pruneBlocks c retain config.maxOps s.chain).2 ↔
        Affordable c config.maxOps s.chain) ∧
      ((∃ k, Covers (pruneTicks c retain config.maxOps k s.chain).pruneState boundary) ↔
        ∀ k, ¬ Covers (pruneTicks c retain config.maxOps k s.chain).pruneState boundary →
          Affordable c config.maxOps (pruneTicks c retain config.maxOps k s.chain)) := by
  have h := (orderly_run run).window
  obtain ⟨-, hpos, hmax⟩ := maxOps_of_accepted accepted
  have hticks (k : Nat) := (h.ticks (c := c) retain config.maxOps k).1
  constructor
  · obtain ⟨n, hle, hsome⟩ := stored
    have hnext : s.chain.pruneState.nextPruneBlock ≤ n := by
      by_contra hlow
      rw [h.gone n (not_le.mp hlow)] at hsome
      exact absurd hsome (by simp)
    exact h.forward hmax hpos outside (hnext.trans hle)
  · have hreaches := h.reaches_iff (c := c) hmax hpos outside
    simp only [covers_iff (hticks _).next, not_lt]
    exact hreaches

-- with this budget for one call no chain ever stops being pruned
theorem full_budget_reaches {world : World T} {init : RuntimeConfig} {s : NodeState T}
    (run : NodeRun c revm trie Uninterrupted (.init world init) s) {maxOps retain boundary : Nat}
    (full : 1 + 9 * maxTxsPerBlock ≤ maxOps) (hmax : maxOps < u64Max)
    (outside : pruneBeforeBlock s.chain.head.number retain = some boundary) :
    ∃ k, Covers (pruneTicks c retain maxOps k s.chain).pruneState boundary := by
  have h := (orderly_run run).window
  have hpos : maxOps ≠ 0 := by omega
  obtain ⟨k, hk⟩ := (h.reaches_iff (c := c) hmax hpos outside).mpr
    (fun k _ => affordable_of_full full)
  exact ⟨k, (covers_iff (h.ticks retain maxOps k).1.next).mpr hk⟩

def smallPolicy : PrunePolicy := ⟨0, 0, 1, 2000, 9500, 1⟩

def smallConfig : PruneConfig := PruneConfig.setPolicy smallPolicy

theorem run_twoBlocks_pruned (maxOps : Nat) :
    NodeRun sampleCrypto nonceRevm sampleTrie Uninterrupted sampleNode (pruneNode 1 maxOps twoBlocks) := by
  have run : NodeRun sampleCrypto nonceRevm sampleTrie Uninterrupted sampleNode twoBlocks :=
    run_twoBlocks (fun _ _ => trivial) (fun _ => trivial)
  have hallowed : Uninterrupted twoBlocks (.chain (.pruneBlocks 1 maxOps)) := trivial
  exact run.step hallowed (.chain (.pruneBlocks 1 maxOps _))

theorem first_tick_evaluated :
    (loadBlock (pruneNode 1 smallConfig.maxOps twoBlocks).chain
      (nextBlock (pruneNode 1 smallConfig.maxOps twoBlocks).chain.pruneState.prunedBefore)).any
      (fun block => smallConfig.maxOps < blockRecords sampleCrypto
        (pruneNode 1 smallConfig.maxOps twoBlocks).chain block) = true ∧
    pruneBeforeBlock (pruneNode 1 smallConfig.maxOps twoBlocks).chain.head.number 1 = some 1 ∧
    (pruneNode 1 smallConfig.maxOps twoBlocks).chain.pruneState.nextPruneBlock ≤ 1 ∧
    ((pruneNode 1 smallConfig.maxOps twoBlocks).chain.blocks.get 1).isSome = true := by
  decide +kernel

theorem not_affordable_after_first_tick :
    ¬ Affordable sampleCrypto smallConfig.maxOps (pruneNode 1 smallConfig.maxOps twoBlocks).chain := by
  intro hcost
  obtain ⟨block, hblock, hover⟩ := (Option.any_eq_true _ _).mp first_tick_evaluated.1
  exact absurd (hcost block hblock) (not_le.mpr (of_decide_eq_true hover))

theorem small_policy_stuck :
    setPrunePolicy smallPolicy = .ok smallConfig ∧
      ∃ s, NodeRun sampleCrypto nonceRevm sampleTrie Uninterrupted sampleNode s ∧
        pruneBeforeBlock s.chain.head.number 1 = some 1 ∧ (s.chain.blocks.get 1).isSome ∧
        ¬ Forward s.chain (pruneBlocks sampleCrypto 1 smallConfig.maxOps s.chain).2 ∧
        ∀ k, ¬ Covers (pruneTicks sampleCrypto 1 smallConfig.maxOps k s.chain).pruneState 1 := by
  have run := run_twoBlocks_pruned smallConfig.maxOps
  have h := (orderly_run run).window
  obtain ⟨-, hbefore, hle, hstored⟩ := first_tick_evaluated
  have hmax : smallConfig.maxOps < u64Max := by decide
  have hcost := not_affordable_after_first_tick
  refine ⟨rfl, _, run, hbefore, hstored, ?_, ?_⟩
  · rw [h.forward hmax (by decide) hbefore hle]
    exact hcost
  · intro k
    obtain ⟨oldest, heq⟩ := h.stays_stuck hmax hbefore hle hcost k
    rw [heq, covers_iff h.next]
    exact not_lt.mpr hle

theorem twoBlocks_progress :
    Forward twoBlocks.chain (pruneBlocks sampleCrypto 1 smallConfig.maxOps twoBlocks.chain).2 ↔
      Affordable sampleCrypto smallConfig.maxOps twoBlocks.chain := by
  have run : NodeRun sampleCrypto nonceRevm sampleTrie Uninterrupted sampleNode twoBlocks :=
    run_twoBlocks (fun _ _ => trivial) (fun _ => trivial)
  obtain ⟨hhead, -, hstored, -⟩ := twoBlocks_evaluated
  have hbefore : pruneBeforeBlock twoBlocks.chain.head.number 1 = some 1 := by
    rw [hhead]
    rfl
  exact (prune_progress_iff run (rfl : setPrunePolicy smallPolicy = .ok smallConfig) hbefore
    ⟨1, le_refl _, hstored⟩).1

end Kasane.Node
