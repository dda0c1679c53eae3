import Kasane.Chain.ExportView

namespace Kasane.Chain

open BigEndian Codec Word Blob

variable {W : Type} {c : Crypto} {evm : Evm W}

def BlockData.Minted (block : BlockData) (number : Nat) : Prop :=
  block.number.toNat = number ∧ block.txIds ≠ [] ∧ block.txIds.length ≤ maxTxsPerBlock

def Minted (s : StableState W) : Prop :=
  ∀ n ptr bytes, s.blocks.get n = some ptr → s.blobStore.read ptr = .ok bytes →
    ∃ block : BlockData, block.Minted n ∧ bytes = block.toBytes

-- a property of the chain that pruning keeps, whatever it prunes and wherever it stops
structure PruneClosed (c : Crypto) (P : StableState W → Prop) : Prop where
  step : ∀ (step : PruneStep) (s t : StableState W), P s → step.run c s = .ok t → P t
  bookkeeping : ∀ (s : StableState W) journal pruneState oldest, P s →
    P { s with pruneJournal := journal, pruneState := pruneState, oldestBlock := oldest }

section

variable {P : StableState W → Prop} (h : PruneClosed c P) {s t : StableState W}
include h

theorem PruneClosed.runSteps {steps : List PruneStep} (hs : P s) : P (runSteps c steps s).2 :=
  runSteps_keeps (fun step _ s t => h.step step s t) hs

theorem PruneClosed.crashed (cur : PruneCursor) (block : BlockData) (k : Nat) (hs : P s) :
    P (crashed c cur block k s) :=
  h.runSteps (h.bookkeeping s _ _ _ hs)

theorem PruneClosed.pruneOneBlock (cur : PruneCursor) (block : BlockData) (hs : P s) :
    P (pruneOneBlock c cur block s).2 :=
  h.runSteps (h.bookkeeping s _ _ _ hs)

theorem PruneClosed.refreshOldest (hs : P s) : P (refreshOldest s) := by
  obtain ⟨oldest, heq⟩ := refreshOldest_eq s
  rw [heq]
  exact h.bookkeeping s _ _ oldest hs

theorem PruneClosed.finishRecovery (q : PruneState) (hs : P s) : P (finishRecovery q s).2 :=
  h.refreshOldest (h.bookkeeping s _ _ _ hs)

theorem PruneClosed.finishSteps (q : PruneState) (steps : List PruneStep) (hs : P s) :
    P (finishSteps c q steps s).2 := by
  have hsteps : P (Chain.runSteps c steps s).2 := h.runSteps hs
  rw [Chain.finishSteps]
  generalize Chain.runSteps c steps s = r at hsteps
  obtain ⟨result, t⟩ := r
  cases result with
  | error e => exact hsteps
  | ok a => exact h.finishRecovery q hsteps

theorem PruneClosed.recoverJournalBlock (q : PruneState) (n : Nat) (hs : P s) :
    P (recoverJournalBlock c q n s).2 := by
  rw [recoverJournalBlock_eq]
  split
  · exact h.finishRecovery q hs
  · exact h.finishSteps q _ hs
  · exact h.finishSteps _ _ hs

theorem PruneClosed.recover (hs : P s) : P (recoverPruneJournal c s).2 := by
  rw [recoverPruneJournal]
  split
  · exact h.recoverJournalBlock _ _ hs
  · split
    · exact h.recoverJournalBlock _ _ (h.bookkeeping s _ _ _ hs)
    · exact h.bookkeeping s _ _ _ hs

theorem PruneClosed.reach {pruneBefore maxOps : Nat} {start cur : PruneCursor} (hs : P s)
    (hreach : PruneReach c pruneBefore maxOps start s cur t) : P t := by
  induction hreach with
  | here => exact hs
  | skip _ _ _ ih => exact ih
  | @pruned cur s t block opsUsed _ _ _ _ _ hdone ih =>
      have hone := h.pruneOneBlock cur block ih
      rw [hdone] at hone
      exact hone

theorem PruneClosed.pruning {retain maxOps : Nat} {cur : PruneCursor} {block : BlockData} (hs : P s)
    (hpruning : Pruning c retain maxOps s cur block t) : P t := by
  obtain ⟨s₁, pruneBefore, hrec, -, -, hreach⟩ := hpruning.reach
  have h₁ := h.recover hs
  rw [hrec] at h₁
  exact h.reach h₁ hreach

theorem PruneClosed.pruneBlocks (retain maxOps : Nat) (hs : P s) :
    P (pruneBlocks c retain maxOps s).2 := by
  rw [Chain.pruneBlocks]
  split_ifs
  · exact hs
  · have h₁ := h.recover hs
    rcases hrec : recoverPruneJournal c s with ⟨r, s₁⟩
    rw [hrec] at h₁
    cases r with
    | error e => exact h₁
    | ok a =>
        dsimp only
        cases hbefore : pruneBeforeBlock s₁.head.number retain with
        | none => exact h₁
        | some pruneBefore =>
            dsimp only
            rcases hloop : pruneLoop c pruneBefore maxOps
              (pruneBefore + 1 - (startCursor s₁.pruneState).next) (startCursor s₁.pruneState) s₁
              with ⟨r, t⟩
            cases pruneLoop_end .here hloop with
            | stopped hreach =>
                exact h.refreshOldest (h.bookkeeping t _ _ _ (h.reach h₁ hreach))
            | @failed cur u t block e hreach _ _ _ herror =>
                have hone := h.pruneOneBlock cur block (h.reach h₁ hreach)
                rw [herror] at hone
                exact hone

end

structure Stocked (s : StableState W) : Prop where
  sound : s.blobStore.Sound
  settled : ∀ n ptr, s.blocks.get n = some ptr → s.blobStore.Settled ptr
  minted : Minted s

theorem stocked_init (world : W) : Stocked (StableState.init world) where
  sound := BlobStore.sound_empty
  settled := fun _ _ h => absurd h (by simp [StableState.init])
  minted := fun _ _ _ h => absurd h (by simp [StableState.init])

theorem Stocked.mono {s t : StableState W} (h : Stocked s) (hk : s.blobStore.Keeps t.blobStore)
    (hblocks : ∀ n ptr, t.blocks.get n = some ptr → s.blocks.get n = some ptr) : Stocked t where
  sound := hk.sound h.sound
  settled := fun n ptr hget => hk.settled ptr h.sound (h.settled n ptr (hblocks n ptr hget))
  minted := by
    intro n ptr bytes hget hread
    have hold := hblocks n ptr hget
    exact h.minted n ptr bytes hold (hk.read ptr bytes h.sound (h.settled n ptr hold) hread)

theorem Stocked.of_view {s t : StableState W} (h : Stocked s) (hview : t.exportView = s.exportView) :
    Stocked t := by
  have hblobs : t.blobStore = s.blobStore := congrArg ExportView.blobStore hview
  have hblocks : t.blocks = s.blocks := congrArg ExportView.blocks hview
  refine h.mono (by rw [hblobs]; exact .refl _) ?_
  intro n ptr hget
  rw [← hblocks]
  exact hget

theorem pruneClosed_stocked : PruneClosed c (Stocked (W := W)) where
  step := by
    intro step s t h hrun
    cases step with
    | removeBlock n =>
        obtain rfl := Except.ok.inj hrun
        refine h.mono (.refl _) ?_
        intro m ptr hget
        rw [OrdMap.get_remove] at hget
        split_ifs at hget
        exact hget
    | reclaim ptr =>
        rw [PruneStep.run] at hrun
        split at hrun
        · rename_i blobs hreclaim
          obtain rfl := Except.ok.inj hrun
          exact h.mono (BlobStore.keeps_reclaimForPrune hreclaim) (fun _ _ hget => hget)
        · exact absurd hrun (by simp)
    | removeFeeIndex id =>
        obtain rfl := Except.ok.inj hrun
        exact h.of_view (view_removePendingFee s id)
    | decrementPrincipal id =>
        obtain rfl := Except.ok.inj hrun
        exact h.of_view (view_decrementPrincipal s id)
    | removeEthTxHash id =>
        obtain rfl := Except.ok.inj hrun
        exact h.of_view (view_removeEthTxHash s id)
    | _ =>
        obtain rfl := Except.ok.inj hrun
        exact ⟨h.sound, h.settled, h.minted⟩
  bookkeeping := fun _ _ _ _ h => ⟨h.sound, h.settled, h.minted⟩

theorem stocked_persistAll {env : CallEnv} {number : Nat} {included : List StagedIncluded}
    {s t : StableState W} {persisted : List StagedPersist} (h : Stocked s)
    (hrun : persistAll env number included s = some (persisted, t)) : Stocked t := by
  obtain ⟨-, blobs, rfl, hk⟩ := persistAll_some hrun
  exact h.mono hk (fun _ _ hget => hget)

theorem view_includeTx (c : Crypto) (evm : Evm W) (number : Nat) (s : StableState W) (q : StagedPersist) :
    (includeTx c evm number s q).blobStore = s.blobStore ∧
      (includeTx c evm number s q).blocks = s.blocks := by
  rw [includeTx]
  have hview (s : StableState W) : (advanceSender c evm s q.staged.txId (some q.staged.sender)
      (some q.staged.nonce) true).exportView = s.exportView :=
    view_advanceSender s q.staged.txId _ _ true
  exact ⟨congrArg ExportView.blobStore (hview _), congrArg ExportView.blocks (hview _)⟩

theorem stocked_includeAll (c : Crypto) (evm : Evm W) (number : Nat) {s : StableState W} (persisted : List StagedPersist)
    (h : Stocked s) : Stocked (persisted.foldl (includeTx c evm number) s) ∧
      (persisted.foldl (includeTx c evm number) s).blobStore = s.blobStore := by
  induction persisted generalizing s with
  | nil => exact ⟨h, rfl⟩
  | cons q persisted ih =>
      obtain ⟨hblobs, hblocks⟩ := view_includeTx c evm number s q
      have hone : Stocked (includeTx c evm number s q) := by
        refine h.mono (by rw [hblobs]; exact .refl _) ?_
        intro n ptr hget
        rw [← hblocks]
        exact hget
      obtain ⟨hrest, hblobs'⟩ := ih hone
      exact ⟨hrest, hblobs'.trans hblobs⟩

theorem Stocked.insertBlock {s : StableState W} {p : BlobPtr} {block : BlockData} {number : Nat}
    (h : Stocked s) (hblock : block.Minted number) (hholds : s.blobStore.Holds p block.toBytes) :
    Stocked { s with blocks := s.blocks.insert number p } := by
  refine ⟨h.sound, ?_, ?_⟩
  · intro n q hget
    rw [OrdMap.get_insert] at hget
    split_ifs at hget
    · obtain rfl := Option.some.inj hget
      exact Or.inl ⟨_, hholds⟩
    · exact h.settled n q hget
  · intro n q bytes hget hread
    rw [OrdMap.get_insert] at hget
    split_ifs at hget with hn
    · obtain rfl := Option.some.inj hget
      have hbytes := Except.ok.inj ((BlobStore.read_of_holds h.sound hholds).symm.trans hread)
      rw [hn]
      exact ⟨block, hblock, hbytes.symm⟩
    · exact h.minted n q bytes hget hread

theorem stocked_commitBlock {env : CallEnv} {ctx : BlockExecContext} {gasUsed : Nat}
    {block : BlockData} {drops : List QueuedDrop} {included : List StagedIncluded}
    {s t : StableState W} (h : Stocked s) (hblock : block.Minted ctx.blockNumber)
    (hrun : commitBlock c evm env ctx gasUsed block drops included s = some t) : Stocked t := by
  obtain ⟨⟨persisted, s₂⟩, hpersist, hrun⟩ := Option.bind_eq_some_iff.mp hrun
  obtain ⟨⟨ptr, s₃⟩, hstore, hrun⟩ := Option.bind_eq_some_iff.mp hrun
  have h₂ := stocked_persistAll (h.of_view (view_applyDrops s drops)) hpersist
  obtain ⟨blobs, oldest, rfl, hk, hholds⟩ := storeBlock_some hstore
  have h₃ : Stocked { s₂ with blobStore := blobs, oldestBlock := oldest } :=
    h₂.mono hk (fun _ _ hget => hget)
  obtain ⟨h₄, hblobs⟩ := stocked_includeAll c evm ctx.blockNumber persisted h₃
  obtain rfl := Option.some.inj hrun
  refine Stocked.of_view ?_ (view_rebuildPendingFee _ _)
  have hkept := h₄.insertBlock (p := ptr) hblock (by
    rw [hblobs]
    exact hholds)
  exact ⟨hkept.sound, hkept.settled, hkept.minted⟩

theorem stocked_produceBlock {env : CallEnv} {maxTxs : Nat} {s t : StableState W}
    {r : Except ChainError ProduceBlockOutcome} (h : Stocked s)
    (hrun : produceBlock c evm env maxTxs s = some (r, t)) : Stocked t := by
  rw [produceBlock] at hrun
  split_ifs at hrun with hmax
  · obtain ⟨-, rfl⟩ := Prod.mk.inj (Option.some.inj hrun)
    exact h
  · dsimp only at hrun
    obtain ⟨⟨m, hstate⟩, ⟨l, hl, hids⟩⟩ := prepares_candidates (c := c) env
      ⟨saturatingAdd u64Max s.head.number 1, max (saturatingAdd u64Max s.head.timestamp 1) env.now,
        s.chainState.baseFee, s.chainState.blockGasLimit⟩
      s.chainState.updateInstructionSoftLimit (env.counter 0)
      (selectReadyCandidates c s s.chainState.baseFee maxTxs) ⟨s, 1, [], 0, .empty⟩
    generalize prepareCandidates c env _ _ _ _ _ = q at hrun hstate hids
    have hprepared : Stocked q.state := by
      rw [hstate]
      exact ⟨h.sound, h.settled, h.minted⟩
    have hfew : q.prepared.length ≤ readyCandidateLimit := by
      have hlen := congrArg List.length hids
      rw [List.length_map, List.map_nil, List.nil_append] at hlen
      rw [hlen]
      exact le_trans hl.length_le (length_selectReady s s.chainState.baseFee maxTxs)
    split_ifs at hrun with hempty hnone
    · obtain ⟨-, rfl⟩ := Prod.mk.inj (Option.some.inj hrun)
      exact h
    · obtain ⟨-, rfl⟩ := Prod.mk.inj (Option.some.inj hrun)
      exact hprepared.of_view (view_applyDrops _ _)
    · split at hrun
      · obtain ⟨-, rfl⟩ := Prod.mk.inj (Option.some.inj hrun)
        exact hprepared
      · rename_i x hexec
        have hx := executes_staged hexec
        split_ifs at hrun with hincluded
        · obtain ⟨-, rfl⟩ := Prod.mk.inj (Option.some.inj hrun)
          exact hprepared.of_view (view_applyDrops _ _)
        · split at hrun
          · obtain ⟨-, rfl⟩ := Prod.mk.inj (Option.some.inj hrun)
            exact ⟨hprepared.sound, hprepared.settled, hprepared.minted⟩
          · obtain ⟨u, hcommit, heq⟩ := Option.map_eq_some_iff.mp hrun
            obtain ⟨-, rfl⟩ := Prod.mk.inj heq
            have hworld (world : W) : Stocked { q.state with world := world } :=
              ⟨hprepared.sound, hprepared.settled, hprepared.minted⟩
            refine stocked_commitBlock (hworld _) ⟨?_, ?_, ?_⟩ hcommit
            · exact UInt64.toNat_ofNat_of_lt (lt_of_le_of_lt (min_le_right _ _) (by decide))
            · exact fun hnil => hincluded (List.map_eq_nil_iff.mp hnil)
            · change (x.included.map StagedIncluded.txId).length ≤ maxTxsPerBlock
              rw [List.length_map]
              exact le_trans (included_length_le hx rfl rfl) (le_trans hfew (by decide))

theorem stocked_op {op : ChainOp} {s t : StableState W} (h : Stocked s) (hrun : op.Runs c evm s t) :
    Stocked t := by
  cases hrun with
  | submitTx now txBytes who s => exact h.of_view (view_submitTx s now _ txBytes who)
  | submitIcTxInput now who canisterId tx s => exact h.of_view (view_submitIcTxInput s now who canisterId tx)
  | produceBlock returns => exact stocked_produceBlock h returns
  | pruneBlocks retain maxOps s => exact pruneClosed_stocked.pruneBlocks retain maxOps h
  | interruptedPrune pruning k =>
      exact pruneClosed_stocked.crashed _ _ k (pruneClosed_stocked.pruning h pruning)
  | recoverPruneJournal s => exact pruneClosed_stocked.recover h
  | rebuildPendingRuntimeIndexes s => exact h.of_view (view_rebuildPendingRuntime s)

theorem minted_run {allowed : StableState W → ChainOp → Prop} {world : W} {s : StableState W}
    (run : ChainRun c evm allowed (.init world) s) : Minted s := by
  have hstocked : Stocked s := by
    induction run with
    | start => exact stocked_init world
    | step _ _ runs ih => exact stocked_op ih runs
  exact hstocked.minted

end Kasane.Chain
