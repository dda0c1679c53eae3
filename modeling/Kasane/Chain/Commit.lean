import Kasane.Chain.Minted
import Kasane.Chain.Advances
import Kasane.Exec.ProduceCases

namespace Kasane.Chain

open BigEndian Codec Word Blob

variable {W : Type} {c : Crypto} {evm : Evm W}

structure SameChain (s t : StableState W) : Prop where
  head : t.head = s.head
  blobStore : t.blobStore = s.blobStore
  blocks : t.blocks = s.blocks
  pruneState : t.pruneState = s.pruneState

theorem sameChain_of_view {s t : StableState W} (hview : t.exportView = s.exportView) :
    SameChain s t :=
  ⟨congrArg ExportView.head hview, congrArg ExportView.blobStore hview,
    congrArg ExportView.blocks hview, congrArg ExportView.pruneState hview⟩

theorem SameChain.trans {s t u : StableState W} (h : SameChain s t) (h' : SameChain t u) :
    SameChain s u :=
  ⟨h'.head.trans h.head, h'.blobStore.trans h.blobStore, h'.blocks.trans h.blocks,
    h'.pruneState.trans h.pruneState⟩

def recordIncluded (number : Nat) (s : StableState W) (q : StagedPersist) : StableState W :=
  { s with
    txIndex := s.txIndex.insert q.staged.txId q.txIndexPtr
    receipts := s.receipts.insert q.staged.txId q.receiptPtr
    internalTraces := match q.internalTracesPtr with
      | some ptr => s.internalTraces.insert q.staged.txId ptr
      | none => s.internalTraces
    txLocs := s.txLocs.insert q.staged.txId (TxLoc.included number q.staged.outcome.txIndex) }

theorem includeTx_eq (evm : Evm W) (number : Nat) (s : StableState W) (q : StagedPersist) :
    includeTx c evm number s q = advanceSender c evm (recordIncluded number s q) q.staged.txId
      (some q.staged.sender) (some q.staged.nonce) true := rfl

theorem sameChain_includeTx (evm : Evm W) (number : Nat) (s : StableState W) (q : StagedPersist) :
    SameChain s (includeTx c evm number s q) := by
  rw [includeTx_eq]
  have hrecorded : SameChain s (recordIncluded number s q) := ⟨rfl, rfl, rfl, rfl⟩
  exact hrecorded.trans (sameChain_of_view (view_advanceSender _ q.staged.txId _ _ true))

theorem sameChain_includeAll (evm : Evm W) (number : Nat) (persisted : List StagedPersist)
    (s : StableState W) : SameChain s (persisted.foldl (includeTx c evm number) s) := by
  induction persisted generalizing s with
  | nil => exact ⟨rfl, rfl, rfl, rfl⟩
  | cons q persisted ih => exact (sameChain_includeTx evm number s q).trans (ih _)

theorem world_includeAll (evm : Evm W) (number : Nat) (persisted : List StagedPersist)
    (s : StableState W) : (persisted.foldl (includeTx c evm number) s).world = s.world := by
  induction persisted generalizing s with
  | nil => rfl
  | cons q persisted ih =>
      have hquiet := quiet_included (c := c) evm (recordIncluded number s q) q.staged.txId
        q.staged.sender q.staged.nonce
      exact (ih _).trans hquiet.world

theorem world_commitBlock {env : CallEnv} {ctx : BlockExecContext} {gasUsed : Nat}
    {block : BlockData} {drops : List QueuedDrop} {included : List StagedIncluded}
    {s t : StableState W} (hrun : commitBlock c evm env ctx gasUsed block drops included s = some t) :
    t.world = s.world := by
  have hquiet := quiet_applyDrops (c := c) evm s drops
  obtain ⟨⟨persisted, s₂⟩, hpersist, hrun⟩ := Option.bind_eq_some_iff.mp hrun
  obtain ⟨⟨ptr, s₃⟩, hstore, hrun⟩ := Option.bind_eq_some_iff.mp hrun
  obtain ⟨-, b₂, rfl, -⟩ := persistAll_some hpersist
  obtain ⟨b₃, oldest, rfl, -, -⟩ := storeBlock_some hstore
  have hincluded := world_includeAll (c := c) evm ctx.blockNumber persisted
    { applyDrops c evm s drops with blobStore := b₃, oldestBlock := oldest }
  obtain rfl := Option.some.inj hrun
  obtain ⟨index, keys, hfee⟩ := rebuildPendingFee_frame (c := c) (W := W) _ _
  rw [hfee]
  exact hincluded.trans hquiet.world

theorem world_pruneStep {step : PruneStep} {s t : StableState W}
    (h : step.run c s = .ok t) : t.world = s.world := by
  cases step with
  | reclaim ptr =>
      rw [PruneStep.run] at h
      split at h
      · obtain rfl := Except.ok.inj h
        rfl
      · exact absurd h (by simp)
  | removeFeeIndex id =>
      obtain rfl := Except.ok.inj h
      exact (quiet_removePendingFeeIndex s id).world
  | decrementPrincipal id =>
      obtain rfl := Except.ok.inj h
      exact (quiet_decrementPrincipal s id).world
  | removeEthTxHash id =>
      obtain rfl := Except.ok.inj h
      obtain ⟨index, heq⟩ := removeEthTxHashIndexForTxId_eq c s id
      rw [heq]
  | _ =>
      obtain rfl := Except.ok.inj h
      rfl

theorem pruneClosed_world (world : W) :
    PruneClosed c (fun s : StableState W => s.world = world) where
  step := fun _ _ _ h hrun => (world_pruneStep hrun).trans h
  bookkeeping := fun _ _ _ _ h => h

theorem Submission.world {call : SubmitCall} {s t : StableState W}
    {r : Except ChainError TxId} (h : Submission c evm call s r t) : t.world = s.world := by
  cases h with
  | refused e tidied => exact (quiet_tidied tidied).world
  | @queued u envelope sender nonce price submitted fresh tidied _ =>
      obtain ⟨hashes, heq⟩ := enqueuePending_linked (c := c) u sender nonce price envelope
      rw [heq, (quiet_promoteIfNextNonce ..).world]
      exact (quiet_tidied tidied).world

structure Commits (ctx : BlockExecContext) (gasUsed : Nat) (block : BlockData)
    (s t : StableState W) : Prop where
  keeps : s.blobStore.Keeps t.blobStore
  stored : ∃ p, t.blocks = s.blocks.insert ctx.blockNumber p ∧ t.blobStore.Holds p block.toBytes
  head : t.head = ⟨ctx.blockNumber, block.blockHash, ctx.timestamp⟩
  baseFee : t.chainState.baseFee =
    computeNextBaseFee s.chainState.baseFee gasUsed s.chainState.blockGasLimit
  blockGasLimit : t.chainState.blockGasLimit = s.chainState.blockGasLimit
  pruneState : t.pruneState = s.pruneState

theorem commits_commitBlock {env : CallEnv} {ctx : BlockExecContext} {gasUsed : Nat}
    {block : BlockData} {drops : List QueuedDrop} {included : List StagedIncluded}
    {s t : StableState W} (hrun : commitBlock c evm env ctx gasUsed block drops included s = some t) :
    Commits ctx gasUsed block s t := by
  have hdrops := sameChain_of_view (@view_applyDrops W c evm s drops)
  have hquiet := quiet_applyDrops (c := c) evm s drops
  obtain ⟨⟨persisted, s₂⟩, hpersist, hrun⟩ := Option.bind_eq_some_iff.mp hrun
  obtain ⟨⟨ptr, s₃⟩, hstore, hrun⟩ := Option.bind_eq_some_iff.mp hrun
  obtain ⟨-, b₂, rfl, hk₂⟩ := persistAll_some hpersist
  obtain ⟨b₃, oldest, rfl, hk₃, hholds⟩ := storeBlock_some hstore
  have hincluded := sameChain_includeAll (c := c) evm ctx.blockNumber persisted
    { applyDrops c evm s drops with blobStore := b₃, oldestBlock := oldest }
  have hframe := (frame_includeAll (c := c) evm ctx.blockNumber persisted
    { applyDrops c evm s drops with blobStore := b₃, oldestBlock := oldest }).chainState
  obtain rfl := Option.some.inj hrun
  obtain ⟨index, keys, hfee⟩ := rebuildPendingFee_frame (c := c) (W := W) _ _
  rw [hfee]
  constructor
  · change s.blobStore.Keeps (persisted.foldl (includeTx c evm ctx.blockNumber) _).blobStore
    rw [hincluded.blobStore, ← hdrops.blobStore]
    exact hk₂.trans hk₃
  · refine ⟨ptr, ?_, ?_⟩
    · change (persisted.foldl (includeTx c evm ctx.blockNumber) _).blocks.insert _ _ = _
      rw [hincluded.blocks, ← hdrops.blocks]
    · change (persisted.foldl (includeTx c evm ctx.blockNumber) _).blobStore.Holds _ _
      rw [hincluded.blobStore]
      exact hholds
  · rfl
  · dsimp only
    rw [hframe, ← hquiet.chainState]
  · dsimp only
    rw [hframe, ← hquiet.chainState]
  · change (persisted.foldl (includeTx c evm ctx.blockNumber) _).pruneState = _
    rw [hincluded.pruneState]
    exact hdrops.pruneState

theorem Commits.loads {ctx : BlockExecContext} {gasUsed : Nat} {block : BlockData}
    {s t : StableState W} (h : Commits ctx gasUsed block s t) (hsound : s.blobStore.Sound)
    (hlen : block.txIds.length ≤ maxTxsPerBlock) (hids : block.txIds ≠ []) :
    loadBlock t ctx.blockNumber = some block := by
  obtain ⟨ptr, hblocks, hholds⟩ := h.stored
  have hget : t.blocks.get ctx.blockNumber = some ptr := by
    rw [hblocks]
    exact (OrdMap.get_insert ..).trans (if_pos rfl)
  have hread := BlobStore.read_of_holds (h.keeps.sound hsound) hholds
  have hgood : isCorruptBlock block = false := by simp [isCorruptBlock, hids]
  simp only [loadBlock, hget, hread, BlockData.fromBytes_toBytes hlen, hgood]
  rfl

theorem Committed.commits {env : CallEnv} {maxTxs : Nat} {s t : StableState W}
    {outcome : ProduceBlockOutcome} {x : ExecState evm} {root : evm.Root} {world : W}
    (h : Committed c evm env maxTxs s t outcome x root world) :
    Commits (blockContext env s) x.gasUsed outcome.block s t := by
  obtain ⟨⟨m, hstate⟩, -⟩ := prepareBlock_prepares c env maxTxs s
  have hcommits := commits_commitBlock h.committed
  rw [hstate] at hcommits
  exact ⟨hcommits.keeps, hcommits.stored, hcommits.head, hcommits.baseFee, hcommits.blockGasLimit,
    hcommits.pruneState⟩

theorem Committed.txIds {env : CallEnv} {maxTxs : Nat} {s t : StableState W}
    {outcome : ProduceBlockOutcome} {x : ExecState evm} {root : evm.Root} {world : W}
    (h : Committed c evm env maxTxs s t outcome x root world) :
    outcome.block.txIds = x.included.map StagedIncluded.txId := by
  rw [h.block]
  rfl

theorem Committed.txIds_few {env : CallEnv} {maxTxs : Nat} {s t : StableState W}
    {outcome : ProduceBlockOutcome} {x : ExecState evm} {root : evm.Root} {world : W}
    (h : Committed c evm env maxTxs s t outcome x root world) :
    outcome.block.txIds ≠ [] ∧ outcome.block.txIds.length ≤ maxTxsPerBlock := by
  rw [h.txIds]
  refine ⟨fun hnil => h.included (List.map_eq_nil_iff.mp hnil), ?_⟩
  rw [List.length_map]
  exact le_trans h.few (by decide)

theorem Committed.loads {env : CallEnv} {maxTxs : Nat} {s t : StableState W}
    {outcome : ProduceBlockOutcome} {x : ExecState evm} {root : evm.Root} {world : W}
    (h : Committed c evm env maxTxs s t outcome x root world) (hsound : s.blobStore.Sound) :
    loadBlock t t.head.number = some outcome.block := by
  rw [h.commits.head]
  exact h.commits.loads hsound h.txIds_few.2 h.txIds_few.1

end Kasane.Chain
