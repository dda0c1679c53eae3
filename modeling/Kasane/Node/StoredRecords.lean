import Kasane.Chain.Addressed
import Kasane.Chain.Located
import Kasane.Exec.TraceStored
import Kasane.Node.PruneFrame

namespace Kasane.Node

open BigEndian Codec Word Blob Chain Export
open Exec (World Revm TrieCommit sampleTrie)
open Exec.Trace (InternalTraceInspector storedBytes stored encodes_finish)

structure BlockReadsBack (block : BlockData) : Prop where
  encoded : block.toBytes = block.encodeWith (UInt32.ofNat block.txIds.length)
  decoded : BlockData.fromBytes block.toBytes = block
  accepted : isCorruptBlock block = false

theorem blockReadsBack {block : BlockData} (hids : block.txIds ≠ [])
    (hlen : block.txIds.length ≤ maxTxsPerBlock) : BlockReadsBack block where
  encoded := BlockData.toBytes_of_bounded hlen
  decoded := BlockData.fromBytes_toBytes hlen
  accepted := by simp [isCorruptBlock, hids]

structure JournalReadsBack (journal : PruneJournal) : Prop where
  encoded : journal.toBytes = journal.encoded
  decoded : PruneJournal.fromBytes journal.toBytes = journal

-- the bytes an execution leaves to be stored for the traces it collected
def tracesBytes (traces : InternalTraceSet) : Option Bytes :=
  if traces.totalCount = 0 then none else (storedBytes traces).toOption

theorem storeInternalTraces_eq {W : Type} {i : InternalTraceInspector} (h : i.Collected)
    (env : CallEnv) (s : StableState W) :
    Exec.Trace.storeInternalTraces env s i.finish =
      Chain.storeInternalTraces env s (tracesBytes i.finish) := by
  rw [Exec.Trace.storeInternalTraces, tracesBytes, (encodes_finish h).bytes]
  split_ifs
  · rfl
  · rfl

theorem traces_placeAll {persisted : List StagedPersist} {f : Slot → Option BlobPtr}
    {q : StagedPersist} {ptr : BlobPtr}
    (hnodup : (persisted.map (fun q => q.staged.txId)).Nodup) (hq : q ∈ persisted)
    (hptr : q.internalTracesPtr = some ptr) :
    persisted.foldl placeTx f (.internalTraces q.staged.txId) = some ptr := by
  induction persisted generalizing f with
  | nil => exact absurd hq List.not_mem_nil
  | cons first persisted ih =>
      obtain ⟨hfirst, hrest⟩ := List.nodup_cons.mp hnodup
      rcases List.mem_cons.mp hq with rfl | hq
      · rw [List.foldl_cons, shelf_placeAll, placeTx, hptr]
        · simp
        · intro other hother
          refine ⟨by simp, by simp, fun heq => hfirst ?_⟩
          exact List.mem_map.mpr ⟨other, hother, (Slot.internalTraces.inj heq).symm⟩
      · exact ih hrest hq

theorem traces_commitBlock {W : Type} {c : Crypto} {evm : Evm W} {env : CallEnv}
    {ctx : BlockExecContext} {gasUsed : Nat} {block : BlockData} {drops : List QueuedDrop}
    {included : List StagedIncluded} {s t : StableState W} (hs : s.blobStore.Sound)
    (hnodup : (included.map StagedIncluded.txId).Nodup)
    (hrun : commitBlock c evm env ctx gasUsed block drops included s = some t)
    {staged : StagedIncluded} {bytes : Bytes} (hstaged : staged ∈ included)
    (hbytes : staged.outcome.internalTraces = some bytes) :
    ∃ ptr, t.internalTraces.get staged.txId = some ptr ∧ t.blobStore.read ptr = .ok bytes := by
  obtain ⟨persisted, blockPtr, s₂, s₃, hplacing⟩ := placing_commitBlock hrun
  have hblobs : (applyDrops c evm s drops).blobStore = s.blobStore :=
    congrArg ExportView.blobStore (view_applyDrops s drops)
  obtain ⟨hretains, hlaid⟩ := laidTx_persistAll (hblobs ▸ hs) hplacing.persist
  obtain ⟨rfl, -, -, -⟩ := persistAll_some hplacing.persist
  obtain ⟨q, hq, rfl⟩ := List.mem_map.mp hstaged
  have hsome := (hlaid q hq).traces
  rw [hbytes] at hsome
  obtain ⟨ptr, hptr⟩ := Option.isSome_iff_exists.mp hsome
  have hblock := retains_storeBlock hretains.sound hplacing.store
  have hheld := ((hlaid q hq).retained hblock).internalTraces ptr bytes hptr hbytes
  rw [List.map_map] at hnodup
  refine ⟨ptr, ?_, ?_⟩
  · change t.shelf (.internalTraces q.staged.txId) = some ptr
    rw [hplacing.shelf, Function.update_of_ne (by simp)]
    exact traces_placeAll hnodup hq hptr
  · rw [hplacing.blobs]
    exact BlobStore.read_of_holds hblock.sound hheld

theorem traces_committed {W : Type} {c : Crypto} {evm : Evm W} {env : CallEnv} {maxTxs : Nat}
    {s t : StableState W} {outcome : ProduceBlockOutcome} {x : ExecState evm} {root : evm.Root}
    {world : W} {p : Pool} (h : Consistent c False s p)
    (hc : Committed c evm env maxTxs s t outcome x root world) {staged : StagedIncluded}
    {bytes : Bytes} (hstaged : staged ∈ x.included)
    (hbytes : staged.outcome.internalTraces = some bytes) :
    ∃ ptr, t.internalTraces.get staged.txId = some ptr ∧ t.blobStore.read ptr = .ok bytes := by
  have hpending := (pending_selectReady (c := c) h.indexed s.chainState.baseFee maxTxs).subperm
    hc.selected
  obtain ⟨⟨m, hstate⟩, -⟩ := prepareBlock_prepares c env maxTxs s
  have hcommit := hc.committed
  rw [hstate] at hcommit
  refine traces_commitBlock ?_ hpending.nodup.of_append_right hcommit hstaged hbytes
  exact h.archived.sound

variable {T : Type} {c : Crypto} {revm : Revm} {trie : TrieCommit T}

theorem addressed_move {s t : StableState (World T)} (h : Addressed s)
    (hmove : ChainMove c revm trie s t) : Addressed t := by
  cases hmove with
  | op op runs => exact addressed_op h runs
  | credited address amount _ => exact h.of_view rfl
  | cleared => exact h.of_view rfl
  | synced => exact h.of_view rfl
  | limited limit => exact h.of_view rfl
  | still => exact h

theorem addressed_nodeRun {allowed : NodeState T → NodeOp → Prop} {world : World T}
    {config : RuntimeConfig} {s : NodeState T}
    (run : NodeRun c revm trie allowed (.init world config) s) : Addressed s.chain := by
  induction run with
  | start => exact addressed_init world
  | step _ _ runs ih => exact addressed_move ih (chainMove_runs runs)

-- what a block leaves behind for a transaction whose traces `i` collected
structure TracesReadBack (i : InternalTraceInspector) (t : StableState (World T)) (id : TxId) :
    Prop where
  fallback : (∃ e, i.finish.toBytesChecked = .error e) ↔
    ∃ item ∈ i.finish.items, maxTraceIdLen < item.traceId.length
  stores : ∀ env (s : StableState (World T)), Exec.Trace.storeInternalTraces env s i.finish =
    Chain.storeInternalTraces env s (tracesBytes i.finish)
  decoded : i.finish.totalCount ≠ 0 → ∃ ptr bytes, t.internalTraces.get id = some ptr ∧
    t.blobStore.read ptr = .ok bytes ∧ InternalTraceSet.fromBytes bytes = stored i.finish

structure ProducedReadsBack (c : Crypto) (revm : Revm) (trie : TrieCommit T) (env : CallEnv)
    (maxTxs : Nat) (s t : StableState (World T)) (outcome : ProduceBlockOutcome) : Prop where
  block : BlockReadsBack outcome.block
  loads : loadBlock t t.head.number = some outcome.block
  traces : ∀ x, executeBlock c (Exec.evm c revm trie) env maxTxs s = .ok x →
    ∀ staged ∈ x.included, ∀ blockNumber txIndex events i,
      (InternalTraceInspector.new blockNumber txIndex).inspectAll events = some i →
      staged.outcome.internalTraces = tracesBytes i.finish → TracesReadBack i t staged.txId

theorem producedReadsBack {env : CallEnv} {maxTxs : Nat} {s t : StableState (World T)} {p : Pool}
    {outcome : ProduceBlockOutcome} (h : Consistent c False s p)
    (hrun : produceBlock c (Exec.evm c revm trie) env maxTxs s = some (.ok outcome, t)) :
    ProducedReadsBack c revm trie env maxTxs s t outcome := by
  cases produceBlock_cases hrun with
  | committed hc =>
      refine ⟨blockReadsBack hc.txIds_few.1 hc.txIds_few.2, hc.loads h.archived.sound, ?_⟩
      intro x hx staged hstaged blockNumber txIndex events i hevents htraces
      obtain rfl := Except.ok.inj (hx.symm.trans hc.executed)
      have hcollected :=
        (InternalTraceInspector.collected_new blockNumber txIndex).inspectAll hevents
      have hencodes := encodes_finish hcollected
      refine ⟨hencodes.fallback, storeInternalTraces_eq hcollected, fun htotal => ?_⟩
      rw [tracesBytes, if_neg htotal, hencodes.bytes] at htraces
      obtain ⟨ptr, hptr, hread⟩ := traces_committed h hc hstaged htraces
      exact ⟨ptr, _, hptr, hread, hencodes.decoded⟩

theorem Stocked.readsBack {W : Type} {s : StableState W} (h : Stocked s) {n : Nat} {ptr : BlobPtr}
    {bytes : Bytes} (hptr : s.blocks.get n = some ptr) (hread : s.blobStore.read ptr = .ok bytes) :
    ∃ block, bytes = block.toBytes ∧ BlockReadsBack block ∧ loadBlock s n = some block := by
  obtain ⟨block, ⟨-, hids, hlen⟩, rfl⟩ := h.minted n ptr bytes hptr hread
  have hback := blockReadsBack hids hlen
  refine ⟨block, rfl, hback, ?_⟩
  simp only [loadBlock, hptr, hread, hback.decoded, hback.accepted]
  rfl

theorem journalReadsBack {W : Type} {retain maxOps : Nat} {s t : StableState W} {cur : PruneCursor}
    {block : BlockData} (h : Addressed s) (hpruning : Pruning c retain maxOps s cur block t) :
    JournalReadsBack ⟨collectPtrsForBlock t cur.next block⟩ := by
  have hlen := collectPtrs_length hpruning.load
  have hfits := @Addressed.collected _ _ (pruneClosed_addressed.pruning h hpruning) cur.next block
  exact ⟨PruneJournal.toBytes_of_few hlen, PruneJournal.fromBytes_toBytes hlen hfits⟩

theorem stored_records_decode {allowed : NodeState T → NodeOp → Prop} {world : World T}
    {config : RuntimeConfig} {s : NodeState T}
    (run : NodeRun c revm trie allowed (.init world config) s) :
    (∀ env maxTxs outcome t,
      produceBlock c (Exec.evm c revm trie) env maxTxs s.chain = some (.ok outcome, t) →
        ProducedReadsBack c revm trie env maxTxs s.chain t outcome) ∧
    (∀ n ptr bytes, s.chain.blocks.get n = some ptr → s.chain.blobStore.read ptr = .ok bytes →
      ∃ block, bytes = block.toBytes ∧ BlockReadsBack block ∧ loadBlock s.chain n = some block) ∧
    (∀ retain maxOps cur block t, Pruning c retain maxOps s.chain cur block t →
      JournalReadsBack ⟨collectPtrsForBlock t cur.next block⟩ ∧
      (writeJournal t cur.next (collectPtrsForBlock t cur.next block)
        cur.pruneState).pruneJournal.get cur.next = some (collectPtrsForBlock t cur.next block)) := by
  obtain ⟨p, hcons⟩ := consistent_nodeRun run
  refine ⟨fun env maxTxs outcome t hrun => producedReadsBack hcons hrun, ?_, ?_⟩
  · intro n ptr bytes hptr hread
    exact Stocked.readsBack (priced_run run).stocked hptr hread
  · intro retain maxOps cur block t hpruning
    refine ⟨journalReadsBack (addressed_nodeRun run) hpruning, ?_⟩
    refine (OrdMap.get_insert ..).trans ((if_pos rfl).trans ?_)
    rw [journalStored_collectPtrs hpruning.load]

theorem twoBlocks_records_decode :
    twoBlocks.chain.head.number = 2 ∧
      ∃ block, loadBlock twoBlocks.chain 2 = some block ∧ BlockReadsBack block := by
  have run : NodeRun sampleCrypto nonceRevm sampleTrie (fun _ _ => True) sampleNode twoBlocks :=
    run_twoBlocks (fun _ _ => trivial) (fun _ => trivial)
  obtain ⟨-, hstored, -⟩ := stored_records_decode run
  obtain ⟨block, hload⟩ := Option.isSome_iff_exists.mp
    (by decide +kernel : (loadBlock twoBlocks.chain 2).isSome)
  obtain ⟨ptr, bytes, hptr, hread, -⟩ := blockAt_some hload
  obtain ⟨stored, -, hback, hloaded⟩ := hstored 2 ptr bytes hptr hread
  exact ⟨by decide +kernel, stored, hloaded, hback⟩

end Kasane.Node
