import Kasane.Chain.Window

namespace Kasane.Chain

open BigEndian Codec Word Blob

variable {W : Type} {c : Crypto} {evm : Evm W} {P : StableState W → Prop}

-- what every kind of edit keeps, every operation keeps
structure OpClosed (c : Crypto) (evm : Evm W) (P : StableState W → Prop) : Prop where
  world : ∀ (s : StableState W) (w : W), P s → P { s with world := w }
  step : ∀ {s t : StableState W}, P s → PoolStep c s t → P t
  laid : ∀ {env : CallEnv} {maxTxs : Nat} {s t u : StableState W} {outcome : ProduceBlockOutcome}
    {x : ExecState evm} {root : evm.Root} {world w : W} {p : Pool}, Consistent c False s p → P s → P u →
    Committed c evm env maxTxs s t outcome x root world →
    Laying c (blockContext env s).blockNumber x.included { s with world := w } u t → P t
  prune : PruneClosed c P
  rebuild : ∀ {s : StableState W} {p : Pool}, Consistent c False s p → P s →
    P (rebuildPendingRuntimeIndexes c evm s)

theorem OpClosed.steps (hP : OpClosed c evm P) {s t : StableState W} (h : P s)
    (hsteps : PoolSteps c s t) : P t := by
  induction hsteps with
  | refl => exact h
  | tail _ hstep ih => exact hP.step ih hstep

theorem OpClosed.op (hP : OpClosed c evm P) {op : ChainOp} {s t : StableState W} {p : Pool}
    (hp : Consistent c False s p) (h : P s) (hrun : op.Runs c evm s t) : P t := by
  cases hrun with
  | submitTx now txBytes who s => exact hP.steps h (steps_submitTx now txBytes who hp)
  | submitIcTxInput now who canisterId tx s caller canister =>
      exact hP.steps h (steps_submitIcTxInput now caller canister tx hp)
  | produceBlock returns =>
      cases steps_produceBlock hp returns with
      | kept e w steps => exact hP.steps (hP.world s w h) steps
      | @laid t u outcome x root world w committed laying =>
          exact hP.laid hp h (hP.steps (hP.world s w h) laying.upkeep) committed laying
  | pruneBlocks retain maxOps s => exact hP.prune.pruneBlocks retain maxOps h
  | interruptedPrune pruning k => exact hP.prune.crashed _ _ k (hP.prune.pruning h pruning)
  | recoverPruneJournal s => exact hP.prune.recover h
  | rebuildPendingRuntimeIndexes s => exact hP.rebuild hp h

end Kasane.Chain
