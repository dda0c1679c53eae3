import Kasane.Chain.PruneJournal
import Kasane.Chain.Shelf

namespace Kasane.Chain

open BigEndian Codec Word Blob

theorem gen_le_of_reuse {s s' : BlobStore} {cls offset len : Nat} {ptr : BlobPtr}
    (h : s.reuse cls offset = .ok s') (hptr : s'.ptrAt cls offset len = .ok ptr) :
    ptr.gen ≤ u32Max := by
  rw [BlobStore.reuse] at h
  split at h
  · cases h
  · rename_i entry hget
    split_ifs at h with hfree
    cases hc : checkedAdd u32Max entry.gen 1 with
    | error e => exact absurd h (by simp [hc, bind, Except.bind])
    | ok gen =>
        obtain ⟨rfl, hle⟩ := BlobStore.checkedAdd_ok hc
        simp only [hc, bind, Except.bind] at h
        obtain rfl := Except.ok.inj h
        rw [BlobStore.ptrAt_of_get (OrdMap.get_insert _ _ _ _ |>.trans (if_pos rfl))] at hptr
        obtain rfl := Except.ok.inj hptr
        exact hle

theorem gen_le_of_extend {grow : Nat → Bool} {s s' : BlobStore} {cls len : Nat} {ptr : BlobPtr}
    (h : s.extend grow cls = .ok s') (hptr : s'.ptrAt cls s.arenaEnd len = .ok ptr) :
    ptr.gen ≤ u32Max := by
  obtain ⟨pages, -, rfl⟩ := BlobStore.extend_ok h
  rw [BlobStore.ptrAt_of_get (OrdMap.get_insert _ _ _ _ |>.trans (if_pos rfl))] at hptr
  obtain rfl := Except.ok.inj hptr
  exact (by decide : 1 ≤ u32Max)

theorem gen_le_of_allocate {grow : Nat → Bool} {s s' : BlobStore} {len : Nat} {ptr : BlobPtr}
    (h : s.allocate grow len = (.ok ptr, s')) : ptr.gen ≤ u32Max := by
  rw [BlobStore.allocate] at h
  split at h
  · cases h
  · split_ifs at h
    · cases h
    · split at h
      · split at h
        · cases h
        · rename_i hreuse
          obtain ⟨hptr, -⟩ := Prod.mk.inj h
          exact gen_le_of_reuse hreuse hptr
      · rename_i t hpop
        split at h
        · cases h
        · rename_i hextend
          obtain ⟨hptr, -⟩ := Prod.mk.inj h
          exact gen_le_of_extend hextend hptr

theorem gen_le_of_storeBytes {grow : Nat → Bool} {s s' : BlobStore} {data : Bytes} {ptr : BlobPtr}
    (h : s.storeBytes grow data = (.ok ptr, s')) : ptr.gen ≤ u32Max := by
  rw [BlobStore.storeBytes] at h
  split at h
  · cases h
  · rename_i q t halloc
    split at h
    · cases h
    · obtain ⟨hptr, -⟩ := Prod.mk.inj h
      obtain rfl := Except.ok.inj hptr
      exact gen_le_of_allocate halloc

theorem fits_of_storeBytes {grow : Nat → Bool} {s s' : BlobStore} {data : Bytes} {ptr : BlobPtr}
    (hs : s.Sound) (h : s.storeBytes grow data = (.ok ptr, s')) : BlobPtrFits ptr := by
  have hgen := gen_le_of_storeBytes h
  have hmax : u64Max < 256 ^ 8 := by decide
  have hmax32 : u32Max < 256 ^ 4 := by decide
  have hclasses : ∀ cls ∈ classes, cls < 256 ^ 4 := by decide
  obtain ⟨hp, -, -⟩ := BlobStore.storeBytes_ok h
  have hcls := hclasses _ hp.cls_mem
  have hlen := hp.len_le
  have harena := hs.arenaEnd_le
  have hoffset : ptr.offset ≤ u64Max := by
    have hslot := hp.slot
    generalize s'.arenaEnd = arenaEnd at hslot
    cases hslot with
    | reused gen free next =>
        have hinside := hs.inside _ _ free
        dsimp only at hinside
        omega
    | fresh atEnd fits first => omega
  exact ⟨by omega, by omega, hcls, by omega⟩

variable {W : Type} {c : Crypto} {evm : Evm W}

-- the pointers of a chain are values of their fixed-width fields
structure Addressed (s : StableState W) : Prop where
  sound : s.blobStore.Sound
  fits : ∀ slot ptr, s.shelf slot = some ptr → BlobPtrFits ptr

theorem addressed_init (world : W) : Addressed (StableState.init world) where
  sound := BlobStore.sound_empty
  fits slot ptr h := by
    cases slot <;> exact absurd h (by simp [StableState.shelf, ExportView.shelf,
      StableState.exportView, StableState.init])

theorem Addressed.mono {s t : StableState W} (h : Addressed s) (hsound : t.blobStore.Sound)
    (hfewer : ∀ slot ptr, t.shelf slot = some ptr → s.shelf slot = some ptr) : Addressed t where
  sound := hsound
  fits slot ptr hslot := h.fits slot ptr (hfewer slot ptr hslot)

theorem Addressed.of_view {s t : StableState W} (h : Addressed s)
    (hview : t.exportView = s.exportView) : Addressed t := by
  have hblobs : t.blobStore = s.blobStore := congrArg ExportView.blobStore hview
  refine h.mono (by rw [hblobs]; exact h.sound) fun slot ptr hslot => ?_
  rw [StableState.shelf, hview] at hslot
  exact hslot

theorem shelf_of_remove {α : Type} [LinearOrder α] {m : OrdMap α BlobPtr} {k k' : α}
    {ptr : BlobPtr} (h : (m.remove k).get k' = some ptr) : m.get k' = some ptr := by
  rw [OrdMap.get_remove] at h
  split_ifs at h
  exact h

theorem pruneClosed_addressed : PruneClosed c (Addressed (W := W)) where
  step := by
    intro step s t h hrun
    cases step with
    | removeBlock n =>
        obtain rfl := Except.ok.inj hrun
        refine h.mono h.sound fun slot ptr hslot => ?_
        cases slot with
        | block m => exact shelf_of_remove hslot
        | _ => exact hslot
    | removeReceipt id =>
        obtain rfl := Except.ok.inj hrun
        refine h.mono h.sound fun slot ptr hslot => ?_
        cases slot with
        | receipt other => exact shelf_of_remove hslot
        | _ => exact hslot
    | removeTxIndex id =>
        obtain rfl := Except.ok.inj hrun
        refine h.mono h.sound fun slot ptr hslot => ?_
        cases slot with
        | txIndex other => exact shelf_of_remove hslot
        | _ => exact hslot
    | removeInternalTraces id =>
        obtain rfl := Except.ok.inj hrun
        refine h.mono h.sound fun slot ptr hslot => ?_
        cases slot with
        | internalTraces other => exact shelf_of_remove hslot
        | _ => exact hslot
    | reclaim ptr =>
        rw [PruneStep.run] at hrun
        split at hrun
        · rename_i blobs hreclaim
          obtain rfl := Except.ok.inj hrun
          exact h.mono ((BlobStore.keeps_reclaimForPrune hreclaim).sound h.sound)
            (fun _ _ hslot => hslot)
        · cases hrun
    | removeFeeIndex id =>
        obtain rfl := Except.ok.inj hrun
        exact h.of_view (view_removePendingFee s id)
    | decrementPrincipal id =>
        obtain rfl := Except.ok.inj hrun
        exact h.of_view (view_decrementPrincipal s id)
    | removeEthTxHash id =>
        obtain rfl := Except.ok.inj hrun
        exact h.of_view (view_removeEthTxHash s id)
    | removeTxLoc id =>
        obtain rfl := Except.ok.inj hrun
        exact h.of_view rfl
    | removeTxStore id =>
        obtain rfl := Except.ok.inj hrun
        exact h.of_view rfl
    | removeSeenTx id =>
        obtain rfl := Except.ok.inj hrun
        exact h.of_view rfl
    | removeJournal n =>
        obtain rfl := Except.ok.inj hrun
        exact h.of_view rfl
    | setPruneState p =>
        obtain rfl := Except.ok.inj hrun
        exact h.mono h.sound fun slot ptr hslot => by cases slot <;> exact hslot
  bookkeeping s journal pruneState oldest h :=
    h.mono h.sound fun slot ptr hslot => by cases slot <;> exact hslot

theorem fits_storeBytes {env : CallEnv} {s t : StableState W} {bytes : Bytes} {ptr : BlobPtr}
    (hs : s.blobStore.Sound) (h : storeBytes env s bytes = some (ptr, t)) : BlobPtrFits ptr := by
  rw [storeBytes] at h
  split at h
  · rename_i q blobs hstore
    obtain ⟨rfl, -⟩ := Prod.mk.inj (Option.some.inj h)
    exact fits_of_storeBytes hs hstore
  · cases h

structure PersistFits (q : StagedPersist) : Prop where
  txIndex : BlobPtrFits q.txIndexPtr
  receipt : BlobPtrFits q.receiptPtr
  traces : ∀ ptr, q.internalTracesPtr = some ptr → BlobPtrFits ptr

theorem fits_persistIncluded {env : CallEnv} {number : Nat} {s t : StableState W}
    {staged : StagedIncluded} {q : StagedPersist} (hs : s.blobStore.Sound)
    (h : persistIncluded env number s staged = some (q, t)) : PersistFits q := by
  obtain ⟨⟨indexPtr, s₁⟩, hindex, h⟩ := Option.bind_eq_some_iff.mp h
  obtain ⟨⟨receiptPtr, s₂⟩, hreceipt, h⟩ := Option.bind_eq_some_iff.mp h
  obtain ⟨⟨tracesPtr, s₃⟩, htraces, h⟩ := Option.bind_eq_some_iff.mp h
  obtain ⟨rfl, rfl⟩ := Prod.mk.inj (Option.some.inj h)
  obtain ⟨h₁, -⟩ := retains_storeBytes hs hindex
  obtain ⟨h₂, -⟩ := retains_storeBytes h₁.sound hreceipt
  refine ⟨fits_storeBytes hs hindex, fits_storeBytes h₁.sound hreceipt, fun ptr hptr => ?_⟩
  dsimp only at hptr
  rw [hptr] at htraces
  cases hbytes : staged.outcome.internalTraces with
  | none =>
      rw [hbytes] at htraces
      cases htraces
  | some bytes =>
      rw [hbytes] at htraces
      obtain ⟨⟨q, u⟩, hstore, heq⟩ := Option.map_eq_some_iff.mp htraces
      obtain ⟨hq, rfl⟩ := Prod.mk.inj heq
      obtain rfl := Option.some.inj hq
      exact fits_storeBytes h₂.sound hstore

theorem fits_persistAll {env : CallEnv} {number : Nat} {included : List StagedIncluded}
    {s t : StableState W} {persisted : List StagedPersist} (hs : s.blobStore.Sound)
    (h : persistAll env number included s = some (persisted, t)) :
    t.blobStore.Sound ∧ ∀ q ∈ persisted, PersistFits q := by
  induction included generalizing s persisted with
  | nil =>
      obtain ⟨rfl, rfl⟩ := Prod.mk.inj (Option.some.inj h)
      exact ⟨hs, by simp⟩
  | cons staged included ih =>
      obtain ⟨⟨q, s₁⟩, hone, h⟩ := Option.bind_eq_some_iff.mp h
      obtain ⟨⟨tail, s₂⟩, hrest, h⟩ := Option.bind_eq_some_iff.mp h
      obtain ⟨rfl, rfl⟩ := Prod.mk.inj (Option.some.inj h)
      obtain ⟨hsound, htail⟩ := ih (retains_persistIncluded hs hone).1.sound hrest
      exact ⟨hsound, List.forall_mem_cons.mpr ⟨fits_persistIncluded hs hone, htail⟩⟩

theorem fits_update {f : Slot → Option BlobPtr} {slot : Slot} {ptr : BlobPtr}
    (hptr : BlobPtrFits ptr) (hf : ∀ slot ptr, f slot = some ptr → BlobPtrFits ptr) :
    ∀ place p, Function.update f slot (some ptr) place = some p → BlobPtrFits p := by
  intro place p hp
  rw [Function.update_apply] at hp
  split_ifs at hp
  · obtain rfl := Option.some.inj hp
    exact hptr
  · exact hf place p hp

theorem fits_placeTx {f : Slot → Option BlobPtr} {q : StagedPersist}
    (hf : ∀ slot ptr, f slot = some ptr → BlobPtrFits ptr) (hq : PersistFits q) :
    ∀ slot ptr, placeTx f q slot = some ptr → BlobPtrFits ptr := by
  have hplaced : ∀ slot ptr, Function.update (Function.update f (.txIndex q.staged.txId)
      (some q.txIndexPtr)) (.receipt q.staged.txId) (some q.receiptPtr) slot = some ptr →
        BlobPtrFits ptr := fits_update hq.receipt (fits_update hq.txIndex hf)
  rw [placeTx]
  cases htraces : q.internalTracesPtr with
  | none => exact hplaced
  | some ptr => exact fits_update (hq.traces ptr htraces) hplaced

theorem fits_placeAll {persisted : List StagedPersist} {f : Slot → Option BlobPtr}
    (hf : ∀ slot ptr, f slot = some ptr → BlobPtrFits ptr)
    (hq : ∀ q ∈ persisted, PersistFits q) :
    ∀ slot ptr, persisted.foldl placeTx f slot = some ptr → BlobPtrFits ptr := by
  induction persisted generalizing f with
  | nil => exact hf
  | cons q persisted ih =>
      obtain ⟨hone, hrest⟩ := List.forall_mem_cons.mp hq
      exact ih (fits_placeTx hf hone) hrest

theorem addressed_commitBlock {env : CallEnv} {ctx : BlockExecContext} {gasUsed : Nat}
    {block : BlockData} {drops : List QueuedDrop} {included : List StagedIncluded}
    {s t : StableState W} (h : Addressed s)
    (hrun : commitBlock c evm env ctx gasUsed block drops included s = some t) : Addressed t := by
  have hdropped : Addressed (applyDrops c evm s drops) := h.of_view (view_applyDrops s drops)
  obtain ⟨persisted, ptr, s₂, s₃, hplacing⟩ := placing_commitBlock hrun
  obtain ⟨hsound₂, hpersisted⟩ := fits_persistAll hdropped.sound hplacing.persist
  have hptr : BlobPtrFits ptr := by
    obtain ⟨⟨q, u⟩, hbytes, heq⟩ := Option.map_eq_some_iff.mp hplacing.store
    obtain ⟨rfl, -⟩ := Prod.mk.inj heq
    exact fits_storeBytes hsound₂ hbytes
  refine ⟨?_, ?_⟩
  · rw [hplacing.blobs]
    exact (retains_storeBlock hsound₂ hplacing.store).sound
  · rw [hplacing.shelf]
    exact fits_update hptr (fits_placeAll hdropped.fits hpersisted)

theorem addressed_produceBlock {env : CallEnv} {maxTxs : Nat} {s t : StableState W}
    {r : Except ChainError ProduceBlockOutcome} (h : Addressed s)
    (hrun : produceBlock c evm env maxTxs s = some (r, t)) : Addressed t := by
  cases produceBlock_cases hrun with
  | refused e m => exact h.of_view rfl
  | dropped e m drops selected =>
      have hs : Addressed { s with decodeSuppressUntil := m } := h.of_view rfl
      exact hs.of_view (view_applyDrops _ drops)
  | unprepared e m prepared => exact h.of_view rfl
  | @committed t outcome x root world hc =>
      obtain ⟨⟨m, hstate⟩, -⟩ := prepareBlock_prepares c env maxTxs s
      have hcommit := hc.committed
      rw [hstate] at hcommit
      let w := evm.applyRoot (x.diffs.foldl evm.commitDiff world) root
      have hs : Addressed { s with world := w, decodeSuppressUntil := m } := h.of_view rfl
      exact addressed_commitBlock hs hcommit

theorem addressed_op {op : ChainOp} {s t : StableState W} (h : Addressed s)
    (hrun : op.Runs c evm s t) : Addressed t := by
  cases hrun with
  | submitTx now txBytes who s => exact h.of_view (view_submitTx s now _ txBytes who)
  | submitIcTxInput now who canisterId tx s =>
      exact h.of_view (view_submitIcTxInput s now who canisterId tx)
  | produceBlock returns => exact addressed_produceBlock h returns
  | pruneBlocks retain maxOps s => exact pruneClosed_addressed.pruneBlocks retain maxOps h
  | interruptedPrune pruning k =>
      exact pruneClosed_addressed.crashed _ _ k (pruneClosed_addressed.pruning h pruning)
  | recoverPruneJournal s => exact pruneClosed_addressed.recover h
  | rebuildPendingRuntimeIndexes s => exact h.of_view (view_rebuildPendingRuntime s)

theorem Addressed.collected {s : StableState W} (h : Addressed s) {n : Nat} {block : BlockData} :
    ∀ ptr ∈ collectPtrsForBlock s n block, BlobPtrFits ptr := by
  intro ptr hptr
  rcases List.mem_append.mp hptr with hptr | hptr
  · exact h.fits (.block n) ptr (Option.mem_toList.mp hptr)
  · obtain ⟨id, -, hptr⟩ := List.mem_flatMap.mp hptr
    rcases List.mem_append.mp hptr with hptr | hptr
    · exact h.fits (.receipt id) ptr (Option.mem_toList.mp hptr)
    · rcases List.mem_append.mp hptr with hptr | hptr
      · exact h.fits (.txIndex id) ptr (Option.mem_toList.mp hptr)
      · exact h.fits (.internalTraces id) ptr (Option.mem_toList.mp hptr)

end Kasane.Chain
