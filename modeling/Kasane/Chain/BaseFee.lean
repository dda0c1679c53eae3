import Kasane.Chain.Commit

namespace Kasane.Chain

open BigEndian Codec Word Blob

def checkedMul (bound a b : Nat) : Option Nat := if a * b ≤ bound then some (a * b) else none

def checkedSub (a b : Nat) : Option Nat := if b ≤ a then some (a - b) else none

def checkedDiv (a b : Nat) : Option Nat := if b = 0 then none else some (a / b)

-- compute_next_base_fee with every operator that can trap evaluated as such
def computeNextBaseFeeChecked (baseFee gasUsed blockGasLimit : Nat) : Option Nat := do
  let gasTarget ← checkedDiv blockGasLimit 2
  if gasTarget = 0 then some baseFee
  else if gasUsed = gasTarget then some baseFee
  else if gasUsed > gasTarget then do
    let gasDelta ← checkedSub gasUsed gasTarget
    let product ← checkedMul u128Max baseFee gasDelta
    let scaled ← checkedDiv product gasTarget
    let change ← checkedDiv scaled 8
    let next := saturatingAdd u128Max baseFee (max change 1)
    some (if next ≤ u64Max then next else u64Max)
  else do
    let gasDelta ← checkedSub gasTarget gasUsed
    let product ← checkedMul u128Max baseFee gasDelta
    let scaled ← checkedDiv product gasTarget
    let change ← checkedDiv scaled 8
    let next := baseFee - change
    some (if next ≤ u64Max then next else 0)

theorem checkedSub_of_le {a b : Nat} (h : b ≤ a) : checkedSub a b = some (a - b) := if_pos h

theorem checkedDiv_of_ne {a b : Nat} (h : b ≠ 0) : checkedDiv a b = some (a / b) := if_neg h

theorem checkedMul_of_u64 {a b : Nat} (ha : a ≤ u64Max) (hb : b ≤ u64Max) :
    checkedMul u128Max a b = some (a * b) := by
  have hprod : a * b ≤ u64Max * u64Max := Nat.mul_le_mul ha hb
  exact if_pos (hprod.trans (by decide))

theorem computeNextBaseFee_checked {baseFee gasUsed limit : Nat} (hbase : baseFee ≤ u64Max)
    (hused : gasUsed ≤ u64Max) (hlimit : limit ≤ u64Max) :
    computeNextBaseFeeChecked baseFee gasUsed limit =
      some (computeNextBaseFee baseFee gasUsed limit) := by
  have htwo : checkedDiv limit 2 = some (limit / 2) := checkedDiv_of_ne (by decide)
  simp only [computeNextBaseFeeChecked, htwo, computeNextBaseFee, Option.bind_eq_bind,
    Option.bind_some]
  by_cases hzero : limit / 2 = 0
  · simp only [hzero, if_true]
  by_cases heq : gasUsed = limit / 2
  · simp only [hzero, heq, if_true, if_false]
  have hdiv (a : Nat) : checkedDiv a (limit / 2) = some (a / (limit / 2)) := checkedDiv_of_ne hzero
  have height (a : Nat) : checkedDiv a 8 = some (a / 8) := checkedDiv_of_ne (by decide)
  by_cases hgt : gasUsed > limit / 2
  · have hsub := checkedSub_of_le (Nat.le_of_lt hgt)
    have hmul := checkedMul_of_u64 (b := gasUsed - limit / 2) hbase (by omega)
    simp only [hzero, heq, hgt, if_true, if_false, hsub, hmul, hdiv, height, Option.bind_some]
    rw [min_def]
  · have hsub := checkedSub_of_le (a := limit / 2) (b := gasUsed) (by omega)
    have hmul := checkedMul_of_u64 (b := limit / 2 - gasUsed) hbase (by omega)
    simp only [hzero, heq, hgt, if_false, hsub, hmul, hdiv, height, Option.bind_some]

theorem computeNextBaseFee_le {baseFee : Nat} (hbase : baseFee ≤ u64Max) (gasUsed limit : Nat) :
    computeNextBaseFee baseFee gasUsed limit ≤ u64Max := by
  simp only [computeNextBaseFee]
  split_ifs
  · exact hbase
  · exact hbase
  · exact min_le_right _ _
  · assumption
  · exact Nat.zero_le _

variable {W : Type} {c : Crypto} {evm : Evm W}

structure SameFees (s t : StableState W) : Prop where
  baseFee : t.chainState.baseFee = s.chainState.baseFee
  blockGasLimit : t.chainState.blockGasLimit = s.chainState.blockGasLimit

theorem Quiet.sameFees {s t : StableState W} (h : Quiet s t) : SameFees s t :=
  ⟨congrArg ChainState.baseFee h.chainState, congrArg ChainState.blockGasLimit h.chainState⟩

theorem SameFees.trans {s t u : StableState W} (h : SameFees s t) (h' : SameFees t u) :
    SameFees s u :=
  ⟨h'.baseFee.trans h.baseFee, h'.blockGasLimit.trans h.blockGasLimit⟩

theorem sameFees_enqueuePending (s : StableState W) (sender : Address) (nonce price : Nat)
    (envelope : StoredTxBytes) : SameFees s (enqueuePending c s sender nonce price envelope) := by
  obtain ⟨hashes, heq⟩ := enqueuePending_linked (c := c) s sender nonce price envelope
  rw [heq]
  have hlinked : SameFees s (linkPending s hashes sender nonce price envelope) := ⟨rfl, rfl⟩
  exact hlinked.trans (quiet_promoteIfNextNonce ..).sameFees

theorem Submission.sameFees {call : SubmitCall} {s t : StableState W}
    {r : Except ChainError TxId} (h : Submission c evm call s r t) : SameFees s t := by
  cases h with
  | refused e tidied => exact (quiet_tidied tidied).sameFees
  | queued price _ _ tidied _ => exact (quiet_tidied tidied).sameFees.trans (sameFees_enqueuePending ..)

-- the chain's base fee is the one that follows from its newest block, when that is stored
structure Priced (s : StableState W) : Prop where
  stocked : Stocked s
  baseFee : s.chainState.baseFee ≤ u64Max
  blockGasLimit : s.chainState.blockGasLimit ≤ u64Max
  head : ∀ block, loadBlock s s.head.number = some block →
    s.chainState.baseFee = computeNextBaseFee block.baseFeePerGas.toNat block.gasUsed.toNat
      block.blockGasLimit.toNat

theorem priced_init (world : W) : Priced (StableState.init world) where
  stocked := stocked_init world
  baseFee := show ChainState.new.baseFee ≤ u64Max by decide
  blockGasLimit := show ChainState.new.blockGasLimit ≤ u64Max by decide
  head := fun _ hload => absurd hload (by simp [loadBlock, StableState.init])

theorem loadBlock_of_keeps {s t : StableState W} (h : Stocked s)
    (hk : s.blobStore.Keeps t.blobStore)
    (hblocks : ∀ n ptr, t.blocks.get n = some ptr → s.blocks.get n = some ptr) {n : Nat}
    {block : BlockData} (hload : loadBlock t n = some block) : loadBlock s n = some block := by
  rw [loadBlock_eq] at hload ⊢
  obtain ⟨ptr, bytes, hptr, -, -⟩ := blockAt_some hload
  refine blockAt_of_keeps hk h.sound (fun {n ptr} => h.settled n ptr) ?_
  rw [← hload]
  exact blockAt_congr hptr (hblocks n ptr hptr) rfl

theorem Priced.fewer {s t : StableState W} (h : Priced s) (hstocked : Stocked t)
    (hhead : t.head = s.head) (hfees : SameFees s t) (hk : s.blobStore.Keeps t.blobStore)
    (hblocks : ∀ n ptr, t.blocks.get n = some ptr → s.blocks.get n = some ptr) : Priced t where
  stocked := hstocked
  baseFee := hfees.baseFee ▸ h.baseFee
  blockGasLimit := hfees.blockGasLimit ▸ h.blockGasLimit
  head := by
    intro block hload
    rw [hfees.baseFee]
    rw [hhead] at hload
    exact h.head block (loadBlock_of_keeps h.stocked hk hblocks hload)

theorem Priced.of_view {s t : StableState W} (h : Priced s) (hview : t.exportView = s.exportView)
    (hfees : SameFees s t) : Priced t := by
  have hblobs : t.blobStore = s.blobStore := congrArg ExportView.blobStore hview
  have hblocks : t.blocks = s.blocks := congrArg ExportView.blocks hview
  refine h.fewer (h.stocked.of_view hview) (congrArg ExportView.head hview) hfees ?_ ?_
  · rw [hblobs]
    exact .refl _
  · intro n ptr hget
    rw [← hblocks]
    exact hget

theorem pruneClosed_priced : PruneClosed c (Priced (W := W)) where
  step := by
    intro step s t h hrun
    have hstocked := pruneClosed_stocked.step step s t h.stocked hrun
    have hquiet (hview : t.exportView = s.exportView) (hfees : SameFees s t) : Priced t :=
      h.of_view hview hfees
    cases step with
    | removeBlock n =>
        obtain rfl := Except.ok.inj hrun
        refine h.fewer hstocked rfl ⟨rfl, rfl⟩ (.refl _) ?_
        intro m ptr hget
        rw [OrdMap.get_remove] at hget
        split_ifs at hget
        exact hget
    | reclaim ptr =>
        rw [PruneStep.run] at hrun
        split at hrun
        · rename_i blobs hreclaim
          obtain rfl := Except.ok.inj hrun
          exact h.fewer hstocked rfl ⟨rfl, rfl⟩ (BlobStore.keeps_reclaimForPrune hreclaim)
            (fun _ _ hget => hget)
        · exact absurd hrun (by simp)
    | removeFeeIndex id =>
        obtain rfl := Except.ok.inj hrun
        exact hquiet (view_removePendingFee s id) (quiet_removePendingFeeIndex s id).sameFees
    | decrementPrincipal id =>
        obtain rfl := Except.ok.inj hrun
        exact hquiet (view_decrementPrincipal s id) (quiet_decrementPrincipal s id).sameFees
    | removeEthTxHash id =>
        obtain rfl := Except.ok.inj hrun
        obtain ⟨index, heq⟩ := removeEthTxHashIndexForTxId_eq c s id
        refine hquiet (view_removeEthTxHash s id) ?_
        rw [heq]
        exact ⟨rfl, rfl⟩
    | _ =>
        obtain rfl := Except.ok.inj hrun
        exact h.fewer hstocked rfl ⟨rfl, rfl⟩ (.refl _) (fun _ _ hget => hget)
  bookkeeping := by
    intro s journal pruneState oldest h
    exact h.fewer ((pruneClosed_stocked (c := c)).bookkeeping s journal pruneState oldest h.stocked) rfl
      ⟨rfl, rfl⟩ (.refl _) (fun _ _ hget => hget)

theorem gasUsed_executeStaged {env : CallEnv} {ctx : BlockExecContext} {softLimit start : Nat}
    {txs : List PreparedTx} {x y : ExecState evm} (hx : x.gasUsed ≤ u64Max)
    (h : executeStaged evm env ctx softLimit start txs x = .ok y) : y.gasUsed ≤ u64Max := by
  induction txs generalizing x with
  | nil =>
      obtain rfl := Except.ok.inj h
      exact hx
  | cons tx txs ih =>
      rw [executeStaged] at h
      dsimp only at h
      split_ifs at h
      · obtain rfl := Except.ok.inj h
        exact hx
      · obtain rfl := Except.ok.inj h
        exact hx
      · exact ih (by exact hx) h
      · split at h
        · exact ih (by exact hx) h
        · split_ifs at h
          · obtain rfl := Except.ok.inj h
            exact min_le_right _ _
          · exact ih (min_le_right _ _) h

theorem Priced.committed {env : CallEnv} {maxTxs : Nat} {s t : StableState W}
    {outcome : ProduceBlockOutcome} {x : ExecState evm} {root : evm.Root} {world : W}
    (h : Priced s) (hstocked : Stocked t)
    (hc : Committed c evm env maxTxs s t outcome x root world) : Priced t := by
  have hcommits := hc.commits
  have hgas : x.gasUsed ≤ u64Max := gasUsed_executeStaged (Nat.zero_le _) hc.executed
  refine ⟨hstocked, ?_, ?_, ?_⟩
  · rw [hcommits.baseFee]
    exact computeNextBaseFee_le h.baseFee _ _
  · rw [hcommits.blockGasLimit]
    exact h.blockGasLimit
  · intro block hload
    obtain rfl := Option.some.inj ((hc.loads h.stocked.sound).symm.trans hload)
    rw [hcommits.baseFee, hc.block]
    dsimp only [makeBlock, blockContext]
    have hnat {n : Nat} (hn : n ≤ u64Max) : (UInt64.ofNat n).toNat = n :=
      UInt64.toNat_ofNat_of_lt (Nat.lt_succ_of_le hn)
    rw [hnat h.baseFee, hnat hgas, hnat h.blockGasLimit]

theorem priced_produceBlock {env : CallEnv} {maxTxs : Nat} {s t : StableState W}
    {r : Except ChainError ProduceBlockOutcome} (h : Priced s)
    (hrun : produceBlock c evm env maxTxs s = some (r, t)) : Priced t := by
  have hstocked := stocked_produceBlock h.stocked hrun
  cases produceBlock_cases hrun with
  | refused e m => exact h.fewer hstocked rfl ⟨rfl, rfl⟩ (.refl _) (fun _ _ hget => hget)
  | dropped e m drops _ =>
      have hsame : Priced { s with decodeSuppressUntil := m } := h.of_view rfl ⟨rfl, rfl⟩
      exact hsame.of_view (view_applyDrops _ drops) (quiet_applyDrops evm _ drops).sameFees
  | unprepared e m _ => exact h.fewer hstocked rfl ⟨rfl, rfl⟩ (.refl _) (fun _ _ hget => hget)
  | committed hc => exact h.committed hstocked hc

theorem priced_op {op : ChainOp} {s t : StableState W} (h : Priced s) (hrun : op.Runs c evm s t) :
    Priced t := by
  cases hrun with
  | submitTx now txBytes who s =>
      exact h.of_view (view_submitTx s now _ txBytes who) (submission_submitTx ..).sameFees
  | submitIcTxInput now who canisterId tx s =>
      exact h.of_view (view_submitIcTxInput s now who canisterId tx)
        (submission_submitIcTxInput ..).sameFees
  | produceBlock returns => exact priced_produceBlock h returns
  | pruneBlocks retain maxOps s => exact pruneClosed_priced.pruneBlocks retain maxOps h
  | interruptedPrune pruning k =>
      exact pruneClosed_priced.crashed _ _ k (pruneClosed_priced.pruning h pruning)
  | recoverPruneJournal s => exact pruneClosed_priced.recover h
  | rebuildPendingRuntimeIndexes s =>
      exact h.of_view (view_rebuildPendingRuntime s) (quiet_tidied (@tidied_rebuildRuntime W c evm ∅ s)).sameFees

end Kasane.Chain
