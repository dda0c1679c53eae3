import Kasane.Chain.DroppedRing
import Kasane.Chain.OpClosed
import Kasane.Node.Runs

namespace Kasane.Node

open BigEndian Codec Word Chain Exec

section Chain

variable {W : Type} {c : Crypto} {evm : Evm W} {s₀ : StableState W}

theorem keepsRing_laying {number : Nat} {included : List StagedIncluded} {s t : StableState W}
    (h : Lays number included s t) : KeepsRing s t := by
  refine ⟨h.droppedRing, h.droppedRingState, fun id loc hloc hkind => ?_⟩
  by_cases hmem : id ∈ included.map StagedIncluded.txId
  · obtain ⟨staged, hstaged, rfl⟩ := List.mem_map.mp hmem
    rw [h.located staged hstaged] at hloc
    obtain rfl := Option.some.inj hloc
    exact absurd hkind (by simp [TxLoc.included])
  · rwa [h.others id hmem] at hloc

theorem keepsRing_removed {s : StableState W} {id : TxId} : KeepsRing s (txLocsRemove s id) := by
  refine ⟨rfl, rfl, fun j loc hloc _ => ?_⟩
  rw [txLocsRemove, OrdMap.get_remove] at hloc
  split_ifs at hloc
  exact hloc

theorem keepsRing_pruneStep {step : PruneStep} {s t : StableState W} (h : step.run c s = .ok t) :
    KeepsRing s t := by
  cases step with
  | reclaim ptr =>
      rw [PruneStep.run] at h
      split at h
      · obtain rfl := Except.ok.inj h
        exact .of_eq rfl rfl rfl
      · exact absurd h (by simp)
  | removeFeeIndex id =>
      obtain rfl := Except.ok.inj h
      obtain ⟨keys, index, heq⟩ := removePendingFeeIndexByTxId_eq s id
      rw [heq]
      exact .of_eq rfl rfl rfl
  | decrementPrincipal id =>
      obtain rfl := Except.ok.inj h
      rw [decrementPrincipal_counts]
      exact .of_eq rfl rfl rfl
  | removeEthTxHash id =>
      obtain rfl := Except.ok.inj h
      obtain ⟨index, heq⟩ := removeEthTxHashIndexForTxId_eq c s id
      rw [heq]
      exact .of_eq rfl rfl rfl
  | removeTxLoc id =>
      obtain rfl := Except.ok.inj h
      exact keepsRing_removed
  | _ =>
      obtain rfl := Except.ok.inj h
      exact .of_eq rfl rfl rfl

def Dropped (c : Crypto) (s₀ s : StableState W) : Prop := ∃ ids, Drops c s₀ ids s

theorem Dropped.keeps {s t : StableState W} (h : Dropped c s₀ s) (keeps : KeepsRing s t) :
    Dropped c s₀ t := by
  obtain ⟨ids, drops⟩ := h
  exact ⟨ids, drops.other keeps⟩

theorem dropped_step {s t : StableState W} (h : Dropped c s₀ s) (hstep : PoolStep c s t) :
    Dropped c s₀ t := by
  cases hstep with
  | touched nonces m => exact h.keeps (.of_eq rfl rfl rfl)
  | @dropped p id e _ _ nonces code =>
      have hunlinked : KeepsRing s { unlinked c s id e with senderExpectedNonce := nonces } :=
        .of_eq rfl rfl rfl
      obtain ⟨ids, drops⟩ := h.keeps hunlinked
      exact ⟨ids ++ [id], drops.drop id code⟩
  | @queued p sender nonce price envelope _ _ hcons _ hvacant _ _ =>
      obtain ⟨hashes, queueMeta, chainState, heq⟩ :=
        enqueuePending_eq (c := c) hcons.indexed hvacant nonce price envelope
      rw [heq]
      refine h.keeps ⟨rfl, rfl, fun id loc hloc hkind => ?_⟩
      dsimp only at hloc
      rw [OrdMap.get_insert] at hloc
      split_ifs at hloc
      · obtain rfl := Option.some.inj hloc
        exact absurd hkind (by simp [TxLoc.queued])
      · exact hloc

theorem pruneClosed_dropped : PruneClosed c (Dropped c s₀) where
  step := fun _ _ _ h hrun => h.keeps (keepsRing_pruneStep hrun)
  bookkeeping := fun _ _ _ _ h => h.keeps (.of_eq rfl rfl rfl)

theorem opClosed_dropped : OpClosed c evm (Dropped c s₀) where
  world := fun _ _ h => h.keeps (.of_eq rfl rfl rfl)
  step := dropped_step
  laid := fun _ _ h _ laying => h.keeps (keepsRing_laying laying.lays)
  prune := pruneClosed_dropped
  rebuild := by
    intro s p hp h
    obtain ⟨counts, seqs, index, keys, heq⟩ := rebuildRuntime_frame evm hp
    rw [heq]
    exact h.keeps (.of_eq rfl rfl rfl)

end Chain

variable {T : Type} {c : Crypto} {revm : Revm} {trie : TrieCommit T}

theorem moveClosed_dropped {s₀ : StableState (World T)} :
    MoveClosed c revm trie (Dropped c s₀) where
  op := opClosed_dropped.op
  world := fun _ _ h => h.keeps (.of_eq rfl rfl rfl)
  cleared := fun _ h => h.keeps (.of_eq rfl rfl rfl)
  synced := fun _ h => h.keeps (.of_eq rfl rfl rfl)
  limited := fun _ _ h => h.keeps (.of_eq rfl rfl rfl)

-- every state the node reaches is the end of a sequence of drops
theorem dropped_nodeRun {allowed : NodeState T → NodeOp → Prop} {world : World T}
    {config : RuntimeConfig} {s : NodeState T}
    (run : NodeRun c revm trie allowed (.init world config) s) :
    Dropped c (StableState.init world) s.chain :=
  moveClosed_dropped.nodeRun ⟨[], .start⟩ run

end Kasane.Node
