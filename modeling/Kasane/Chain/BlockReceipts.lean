import Kasane.Chain.Dated
import Kasane.Chain.Addressed
import Kasane.Chain.BaseFee
import Kasane.Exec.Receipts

namespace Kasane.Chain

open BigEndian Codec Word Blob
open Receipt (ReceiptLike)

variable {W : Type} {c : Crypto} {evm : Evm W}

-- a receipt as execution writes it: it names its block and its place there
structure ReceiptAt (number i : Nat) (receipt : ReceiptLike) : Prop where
  bounded : receipt.Bounded
  blockNumber : receipt.blockNumber.toNat = number
  txIndex : receipt.txIndex.toNat = i

-- what is still stored of a block's receipts is what its execution wrote
structure Receipted (s : StableState W) : Prop where
  stocked : Stocked s
  settled : ∀ id ptr, s.receipts.get id = some ptr → s.blobStore.Settled ptr
  distinct : ∀ n block, loadBlock s n = some block → block.txIds.Nodup
  placed : ∀ n block i id ptr bytes, loadBlock s n = some block → block.txIds[i]? = some id →
    s.receipts.get id = some ptr → s.blobStore.read ptr = .ok bytes →
      ∃ receipt, ReceiptAt n i receipt ∧ bytes = Receipt.toBytes receipt

theorem receipted_init (world : W) : Receipted (StableState.init world) where
  stocked := stocked_init world
  settled := fun _ _ h => absurd h (by simp [StableState.init])
  distinct := fun _ _ h => absurd h (by simp [loadBlock, StableState.init])
  placed := fun _ _ _ _ _ _ h => absurd h (by simp [loadBlock, StableState.init])

theorem Receipted.mono {s t : StableState W} (h : Receipted s)
    (hk : s.blobStore.Keeps t.blobStore)
    (hblocks : ∀ n ptr, t.blocks.get n = some ptr → s.blocks.get n = some ptr)
    (hreceipts : ∀ id ptr, t.receipts.get id = some ptr → s.receipts.get id = some ptr) :
    Receipted t where
  stocked := h.stocked.mono hk hblocks
  settled := fun id ptr hptr =>
    hk.settled ptr h.stocked.sound (h.settled id ptr (hreceipts id ptr hptr))
  distinct := fun n block hload =>
    h.distinct n block (loadBlock_of_keeps h.stocked hk hblocks hload)
  placed := by
    intro n block i id ptr bytes hload hid hptr hread
    have hold := hreceipts id ptr hptr
    exact h.placed n block i id ptr bytes (loadBlock_of_keeps h.stocked hk hblocks hload) hid hold
      (hk.read ptr bytes h.stocked.sound (h.settled id ptr hold) hread)

theorem Receipted.of_view {s t : StableState W} (h : Receipted s)
    (hview : t.exportView = s.exportView) : Receipted t := by
  have hblobs : t.blobStore = s.blobStore := congrArg ExportView.blobStore hview
  have hblocks : t.blocks = s.blocks := congrArg ExportView.blocks hview
  have hreceipts : t.receipts = s.receipts := congrArg ExportView.receipts hview
  refine h.mono (by rw [hblobs]; exact .refl _) ?_ ?_
  · exact fun n ptr hget => by rwa [← hblocks]
  · exact fun id ptr hget => by rwa [← hreceipts]

theorem pruneClosed_receipted : PruneClosed c (Receipted (W := W)) where
  step := by
    intro step s t h hrun
    cases step with
    | removeBlock n =>
        obtain rfl := Except.ok.inj hrun
        exact h.mono (.refl _) (fun _ _ hget => shelf_of_remove hget) (fun _ _ hget => hget)
    | removeReceipt id =>
        obtain rfl := Except.ok.inj hrun
        exact h.mono (.refl _) (fun _ _ hget => hget) (fun _ _ hget => shelf_of_remove hget)
    | reclaim ptr =>
        rw [PruneStep.run] at hrun
        split at hrun
        · rename_i blobs hreclaim
          obtain rfl := Except.ok.inj hrun
          exact h.mono (BlobStore.keeps_reclaimForPrune hreclaim) (fun _ _ hget => hget)
            (fun _ _ hget => hget)
        · exact absurd hrun (by simp)
    | removeFeeIndex id =>
        obtain rfl := Except.ok.inj hrun
        exact h.of_view (view_removePendingFee s id)
    | decrementPrincipal id =>
        obtain rfl := Except.ok.inj hrun
        exact h.of_view (view_decrementPrincipal s id)
    | removeEthTxHash id =>
        obtain rfl := Except.ok.inj hrun
        exact h.of_view (view_removeEthTxHash s id)
    | _ =>
        obtain rfl := Except.ok.inj hrun
        exact h.mono (.refl _) (fun _ _ hget => hget) (fun _ _ hget => hget)
  bookkeeping := fun _ _ _ _ h => h.mono (.refl _) (fun _ _ hget => hget) (fun _ _ hget => hget)

theorem receipt_placeAll {persisted : List StagedPersist} {f : Slot → Option BlobPtr} {id : TxId}
    {ptr : BlobPtr} (h : persisted.foldl placeTx f (.receipt id) = some ptr) :
    (∃ q ∈ persisted, q.staged.txId = id ∧ q.receiptPtr = ptr) ∨
      (f (.receipt id) = some ptr ∧ id ∉ persisted.map (fun q => q.staged.txId)) := by
  induction persisted generalizing f with
  | nil => exact .inr ⟨h, List.not_mem_nil⟩
  | cons q persisted ih =>
      rw [List.foldl_cons] at h
      have hone : placeTx f q (.receipt id) =
          if id = q.staged.txId then some q.receiptPtr else f (.receipt id) := by
        rw [placeTx]
        cases q.internalTracesPtr <;> simp [Function.update_apply]
      rcases ih h with ⟨r, hr, hfound⟩ | ⟨hkept, hnot⟩
      · exact .inl ⟨r, List.mem_cons_of_mem q hr, hfound⟩
      · rw [hone] at hkept
        split_ifs at hkept with hid
        · exact .inl ⟨q, List.mem_cons_self, hid.symm, Option.some.inj hkept⟩
        · exact .inr ⟨hkept, by simpa [hid] using hnot⟩

theorem receipts_commitBlock {env : CallEnv} {ctx : BlockExecContext} {gasUsed : Nat}
    {block : BlockData} {drops : List QueuedDrop} {included : List StagedIncluded}
    {s t : StableState W} (hs : s.blobStore.Sound)
    (hrun : commitBlock c evm env ctx gasUsed block drops included s = some t) {id : TxId}
    {ptr : BlobPtr} (hptr : t.receipts.get id = some ptr) :
    (∃ staged ∈ included, staged.txId = id ∧
      t.blobStore.Holds ptr (Receipt.toBytes staged.outcome.receipt)) ∨
      (s.receipts.get id = some ptr ∧ id ∉ included.map StagedIncluded.txId) := by
  have hview := @view_applyDrops W c evm s drops
  have hshelf : (applyDrops c evm s drops).shelf = s.shelf := congrArg ExportView.shelf hview
  have hblobs : (applyDrops c evm s drops).blobStore = s.blobStore :=
    congrArg ExportView.blobStore hview
  obtain ⟨persisted, blockPtr, s₂, s₃, hplacing⟩ := placing_commitBlock hrun
  obtain ⟨hretains, hlaid⟩ := laidTx_persistAll (hblobs ▸ hs) hplacing.persist
  obtain ⟨rfl, -⟩ := persistAll_some hplacing.persist
  have hblock := retains_storeBlock hretains.sound hplacing.store
  change t.shelf (.receipt id) = some ptr at hptr
  rw [hplacing.shelf, Function.update_of_ne (by simp), hshelf] at hptr
  rcases receipt_placeAll hptr with ⟨q, hq, hid, rfl⟩ | ⟨hold, hnot⟩
  · refine .inl ⟨q.staged, List.mem_map.mpr ⟨q, hq, rfl⟩, hid, ?_⟩
    rw [hplacing.blobs]
    exact ((hlaid q hq).retained hblock).receipt
  · exact .inr ⟨hold, by rwa [List.map_map]⟩

theorem receipts_committed {env : CallEnv} {maxTxs : Nat} {s t : StableState W}
    {outcome : ProduceBlockOutcome} {x : ExecState evm} {root : evm.Root} {world : W}
    (hs : s.blobStore.Sound) (hc : Committed c evm env maxTxs s t outcome x root world) {id : TxId}
    {ptr : BlobPtr} (hptr : t.receipts.get id = some ptr) :
    (∃ staged ∈ x.included, staged.txId = id ∧
      t.blobStore.Holds ptr (Receipt.toBytes staged.outcome.receipt)) ∨
      (s.receipts.get id = some ptr ∧ id ∉ x.included.map StagedIncluded.txId) := by
  obtain ⟨⟨m, hstate⟩, -⟩ := prepareBlock_prepares c env maxTxs s
  have hcommit := hc.committed
  rw [hstate] at hcommit
  exact receipts_commitBlock (by exact hs) hcommit hptr

theorem Receipted.committed {env : CallEnv} {maxTxs : Nat} {s t : StableState W} {p : Pool}
    {outcome : ProduceBlockOutcome} {x : ExecState evm} {root : evm.Root} {world : W}
    (h : Receipted s) (hp : Consistent c False s p) (ht : Stocked t)
    (hc : Committed c evm env maxTxs s t outcome x root world)
    (hplaced : ∀ i staged, x.included[i]? = some staged →
      ReceiptAt (blockContext env s).blockNumber i staged.outcome.receipt) : Receipted t := by
  have hkeeps := hc.commits.keeps
  have hnew : loadBlock t (blockContext env s).blockNumber = some outcome.block := by
    have hload := hc.loads h.stocked.sound
    rwa [hc.commits.head] at hload
  have hpending : Pending p (x.included.map StagedIncluded.txId) :=
    ((pending_selectReady (c := c) hp.indexed s.chainState.baseFee maxTxs).subperm
      hc.selected).subperm (List.sublist_append_right _ _).subperm
  refine ⟨ht, ?_, ?_, ?_⟩
  · intro id ptr hptr
    rcases receipts_committed h.stocked.sound hc hptr with ⟨staged, -, -, hholds⟩ | ⟨hold, -⟩
    · exact .inl ⟨_, hholds⟩
    · exact hkeeps.settled ptr h.stocked.sound (h.settled id ptr hold)
  · intro n block hload
    by_cases hn : n = (blockContext env s).blockNumber
    · rw [hn, hnew] at hload
      obtain rfl := Option.some.inj hload
      rw [hc.txIds]
      exact hpending.nodup
    · exact h.distinct n block (loads_committed h.stocked hc.commits hn hload)
  · intro n block i id ptr bytes hload hid hptr hread
    by_cases hn : n = (blockContext env s).blockNumber
    · rw [hn, hnew] at hload
      obtain rfl := Option.some.inj hload
      rw [hc.txIds, List.getElem?_map] at hid
      obtain ⟨staged, hstaged, rfl⟩ := Option.map_eq_some_iff.mp hid
      rcases receipts_committed h.stocked.sound hc hptr with ⟨other, hmem, hsame, hholds⟩ | ⟨-, hnot⟩
      · have hother : other = staged :=
          List.inj_on_of_nodup_map hpending.nodup hmem (List.mem_of_getElem? hstaged) hsame
        have hbytes := Except.ok.inj
          ((BlobStore.read_of_holds ht.sound hholds).symm.trans hread)
        exact ⟨staged.outcome.receipt, hn ▸ hplaced i staged hstaged, by rw [← hbytes, hother]⟩
      · exact absurd (List.mem_map.mpr ⟨staged, List.mem_of_getElem? hstaged, rfl⟩) hnot
    · have hold := loads_committed h.stocked hc.commits hn hload
      rcases receipts_committed h.stocked.sound hc hptr with ⟨staged, hmem, rfl, -⟩ | ⟨hkept, -⟩
      · obtain ⟨e, he⟩ := hpending.pending staged.txId (List.mem_map.mpr ⟨staged, hmem, rfl⟩)
        have hidle := hp.archived.idle hold (List.mem_of_getElem? hid)
        exact absurd (hidle.symm.trans he) (by simp)
      · exact h.placed n block i id ptr bytes hold hid hkept
          (hkeeps.read ptr bytes h.stocked.sound (h.settled id ptr hkept) hread)

theorem receiptAt_executed {T : Type} {revm : Exec.Revm} {trie : Exec.TrieCommit T}
    {env : CallEnv} {maxTxs : Nat} {s : StableState (Exec.World T)}
    {x : ExecState (Exec.evm c revm trie)}
    (h : executeBlock c (Exec.evm c revm trie) env maxTxs s = .ok x)
    (hfew : x.included.length ≤ readyCandidateLimit) {i : Nat} {staged : StagedIncluded}
    (hi : x.included[i]? = some staged) :
    ReceiptAt (blockContext env s).blockNumber i staged.outcome.receipt := by
  have hinorder := Exec.inOrder_executeBlock h
  have hstaged := hinorder.staged staged (List.mem_of_getElem? hi)
  have hlt : i < x.included.length := (List.getElem?_eq_some_iff.mp hi).1
  have hindex := hinorder.txIndex hi
  have hlimit : readyCandidateLimit < 2 ^ 32 := by decide
  have hnumber : (blockContext env s).blockNumber < 2 ^ 64 :=
    Nat.lt_of_le_of_lt (min_le_right _ _) (by decide : u64Max < 2 ^ 64)
  refine ⟨hstaged.bounded, ?_, ?_⟩
  · rw [hstaged.blockNumber]
    exact UInt64.toNat_ofNat_of_lt' hnumber
  · rw [hstaged.txIndex, hindex]
    exact UInt32.toNat_ofNat_of_lt' (by omega : i < 2 ^ 32)

end Kasane.Chain
