import Kasane.Chain.Shelf

namespace Kasane.Chain

open BigEndian Codec Word Blob

variable {W : Type} {c : Crypto}

-- everything that is kept for one transaction
structure TxRecord where
  receipt : Option BlobPtr
  txIndex : Option BlobPtr
  internalTraces : Option BlobPtr
  loc : Option TxLoc
  stored : Option StoredTxBytes
  seen : Option UInt8

def TxRecord.none : TxRecord := ⟨.none, .none, .none, .none, .none, .none⟩

def StableState.txRecord (s : StableState W) (id : TxId) : TxRecord where
  receipt := s.receipts.get id
  txIndex := s.txIndex.get id
  internalTraces := s.internalTraces.get id
  loc := s.txLocs.get id
  stored := s.txStore.get id
  seen := s.seenTx.get id

def forgetTx (c : Crypto) (s : StableState W) (id : TxId) : StableState W :=
  let s := decrementPrincipalPendingCountForTx c (removePendingFeeIndexByTxId s id) id
  let s := txLocsRemove
    { s with
      receipts := s.receipts.remove id
      txIndex := s.txIndex.remove id
      internalTraces := s.internalTraces.remove id } id
  let s := removeEthTxHashIndexForTxId c s id
  { s with
    txStore := s.txStore.remove id
    seenTx := s.seenTx.remove id }

def forgetBlock (c : Crypto) (number : Nat) (block : BlockData) (s : StableState W) : StableState W :=
  block.txIds.foldl (forgetTx c) { s with blocks := s.blocks.remove number }

theorem runSteps_pruneTx (ids : List TxId) (s : StableState W) :
    runSteps c (ids.flatMap pruneTxSteps) s = (.ok (), ids.foldl (forgetTx c) s) := by
  induction ids generalizing s with
  | nil => rfl
  | cons id ids ih =>
      have hone : runSteps c (pruneTxSteps id) s = (.ok (), forgetTx c s id) := rfl
      rw [List.flatMap_cons, runSteps_append, hone]
      exact ih _

theorem runSteps_dropBlock (number : Nat) (block : BlockData) (s : StableState W) :
    runSteps c (dropBlockSteps number block) s = (.ok (), forgetBlock c number block s) :=
  runSteps_pruneTx block.txIds _

theorem runSteps_reclaim {ptrs : List BlobPtr} {s : StableState W} {blobs : BlobStore}
    (h : ptrs.foldlM BlobStore.reclaimForPrune s.blobStore = .ok blobs) :
    runSteps c (ptrs.map PruneStep.reclaim) s = (.ok (), { s with blobStore := blobs }) := by
  induction ptrs generalizing s with
  | nil =>
      obtain rfl := Except.ok.inj h
      rfl
  | cons ptr ptrs ih =>
      rw [List.foldlM_cons] at h
      cases hone : s.blobStore.reclaimForPrune ptr with
      | error e =>
          rw [hone] at h
          exact absurd h (by simp [bind, Except.bind])
      | ok b =>
          rw [hone] at h
          rw [List.map_cons, runSteps, PruneStep.run, hone]
          exact ih (s := { s with blobStore := b }) h

theorem forgetTx_eq (s : StableState W) (id : TxId) :
    ∃ index keys counts hashes, forgetTx c s id =
      { s with
        pendingFeeIndex := index
        pendingFeeKeyByTxId := keys
        principalPendingCount := counts
        ethTxHashIndex := hashes
        receipts := s.receipts.remove id
        txIndex := s.txIndex.remove id
        internalTraces := s.internalTraces.remove id
        txLocs := s.txLocs.remove id
        txStore := s.txStore.remove id
        seenTx := s.seenTx.remove id } := by
  obtain ⟨keys, index, hfee⟩ := removePendingFeeIndexByTxId_eq s id
  obtain ⟨counts, hcount⟩ := decrementPrincipalPendingCountForTx_eq c
    { s with pendingFeeKeyByTxId := keys, pendingFeeIndex := index } id
  rw [forgetTx, hfee, hcount]
  obtain ⟨hashes, hhash⟩ := removeEthTxHashIndexForTxId_eq c (txLocsRemove
    { s with
      pendingFeeKeyByTxId := keys
      pendingFeeIndex := index
      principalPendingCount := counts
      receipts := s.receipts.remove id
      txIndex := s.txIndex.remove id
      internalTraces := s.internalTraces.remove id } id) id
  dsimp only
  rw [hhash]
  exact ⟨index, keys, counts, hashes, rfl⟩

theorem forgetTxs_eq (ids : List TxId) (s : StableState W) :
    ∃ index keys counts hashes receipts txIndex traces locs store seen,
      ids.foldl (forgetTx c) s =
        { s with
          pendingFeeIndex := index
          pendingFeeKeyByTxId := keys
          principalPendingCount := counts
          ethTxHashIndex := hashes
          receipts := receipts
          txIndex := txIndex
          internalTraces := traces
          txLocs := locs
          txStore := store
          seenTx := seen } := by
  induction ids generalizing s with
  | nil => exact ⟨_, _, _, _, _, _, _, _, _, _, rfl⟩
  | cons id ids ih =>
      obtain ⟨index, keys, counts, hashes, hone⟩ := forgetTx_eq (c := c) s id
      obtain ⟨index', keys', counts', hashes', receipts, txIndex, traces, locs, store, seen, hrest⟩ :=
        ih (forgetTx c s id)
      refine ⟨index', keys', counts', hashes', receipts, txIndex, traces, locs, store, seen, ?_⟩
      rw [List.foldl_cons, hrest, hone]

theorem txRecord_forgetTx (s : StableState W) (id j : TxId) :
    (forgetTx c s id).txRecord j = if j = id then .none else s.txRecord j := by
  obtain ⟨index, keys, counts, hashes, heq⟩ := forgetTx_eq (c := c) s id
  rw [heq]
  simp only [StableState.txRecord, OrdMap.get_remove]
  split_ifs
  · rfl
  · rfl

theorem txRecord_forgetTxs (ids : List TxId) (s : StableState W) (j : TxId) :
    (ids.foldl (forgetTx c) s).txRecord j = if j ∈ ids then .none else s.txRecord j := by
  induction ids generalizing s with
  | nil => simp
  | cons id ids ih =>
      rw [List.foldl_cons, ih, txRecord_forgetTx]
      by_cases hj : j = id
      · simp [hj]
      · simp [hj]

theorem txRecord_forgetBlock (number : Nat) (block : BlockData) (s : StableState W) (j : TxId) :
    (forgetBlock c number block s).txRecord j =
      if j ∈ block.txIds then .none else s.txRecord j :=
  txRecord_forgetTxs block.txIds _ j

theorem blocks_forgetBlock (number : Nat) (block : BlockData) (s : StableState W) :
    (forgetBlock c number block s).blocks = s.blocks.remove number := by
  obtain ⟨index, keys, counts, hashes, receipts, txIndex, traces, locs, store, seen, heq⟩ :=
    forgetTxs_eq (c := c) block.txIds { s with blocks := s.blocks.remove number }
  rw [forgetBlock, heq]

def blockSlots (number : Nat) (block : BlockData) : List Slot :=
  .block number :: block.txIds.flatMap (fun id => [.receipt id, .txIndex id, .internalTraces id])

theorem mem_blockSlots {number : Nat} {block : BlockData} {slot : Slot} :
    slot ∈ blockSlots number block ↔ slot = .block number ∨ ∃ id ∈ block.txIds,
      slot = .receipt id ∨ slot = .txIndex id ∨ slot = .internalTraces id := by
  simp [blockSlots]

theorem mem_collectPtrs {s : StableState W} {number : Nat} {block : BlockData} {ptr : BlobPtr} :
    ptr ∈ collectPtrsForBlock s number block ↔
      ∃ slot ∈ blockSlots number block, s.shelf slot = some ptr := by
  simp only [collectPtrsForBlock, List.mem_append, Option.mem_toList,
    List.mem_flatMap, mem_blockSlots]
  constructor
  · rintro (hblock | ⟨id, hid, hreceipt | hindex | htraces⟩)
    · exact ⟨.block number, .inl rfl, hblock⟩
    · exact ⟨.receipt id, .inr ⟨id, hid, .inl rfl⟩, hreceipt⟩
    · exact ⟨.txIndex id, .inr ⟨id, hid, .inr (.inl rfl)⟩, hindex⟩
    · exact ⟨.internalTraces id, .inr ⟨id, hid, .inr (.inr rfl)⟩, htraces⟩
  · rintro ⟨slot, rfl | ⟨id, hid, rfl | rfl | rfl⟩, hslot⟩
    · exact .inl hslot
    · exact .inr ⟨id, hid, .inl hslot⟩
    · exact .inr ⟨id, hid, .inr (.inl hslot)⟩
    · exact .inr ⟨id, hid, .inr (.inr hslot)⟩

theorem shelf_forgetBlock (number : Nat) (block : BlockData) (s : StableState W) (slot : Slot) :
    (forgetBlock c number block s).shelf slot =
      if slot ∈ blockSlots number block then none else s.shelf slot := by
  have hrecord (id : TxId) := txRecord_forgetBlock (c := c) number block s id
  cases slot with
  | block n =>
      change (forgetBlock c number block s).blocks.get n = _
      rw [blocks_forgetBlock, OrdMap.get_remove]
      simp [mem_blockSlots, StableState.shelf, ExportView.shelf, StableState.exportView]
  | receipt id =>
      refine (congrArg TxRecord.receipt (hrecord id)).trans ?_
      by_cases hid : id ∈ block.txIds
      · simp [mem_blockSlots, hid, TxRecord.none]
      · simp [mem_blockSlots, hid]
        rfl
  | txIndex id =>
      refine (congrArg TxRecord.txIndex (hrecord id)).trans ?_
      by_cases hid : id ∈ block.txIds
      · simp [mem_blockSlots, hid, TxRecord.none]
      · simp [mem_blockSlots, hid]
        rfl
  | internalTraces id =>
      refine (congrArg TxRecord.internalTraces (hrecord id)).trans ?_
      by_cases hid : id ∈ block.txIds
      · simp [mem_blockSlots, hid, TxRecord.none]
      · simp [mem_blockSlots, hid]
        rfl

def HashOf (c : Crypto) (s : StableState W) (id : TxId) (h : ByteArr 32) : Prop :=
  ∃ stored, storedTx c s id = some (.ok stored) ∧ stored.kind = .ethSigned ∧
    c.keccak256 stored.raw = h

theorem hashes_removeEthTxHash (s : StableState W) (id : TxId) (h : ByteArr 32) :
    (HashOf c s id h → (removeEthTxHashIndexForTxId c s id).ethTxHashIndex.get h = none) ∧
      (¬ HashOf c s id h →
        (removeEthTxHashIndexForTxId c s id).ethTxHashIndex.get h = s.ethTxHashIndex.get h) := by
  rw [removeEthTxHashIndexForTxId]
  split
  · rename_i stored hstored
    split_ifs with hkind
    · refine ⟨?_, fun _ => rfl⟩
      rintro ⟨other, hother, hsigned, -⟩
      obtain rfl := Except.ok.inj (Option.some.inj (hstored.symm.trans hother))
      exact absurd hsigned hkind
    · refine ⟨?_, ?_⟩
      · rintro ⟨other, hother, -, rfl⟩
        obtain rfl := Except.ok.inj (Option.some.inj (hstored.symm.trans hother))
        exact (OrdMap.get_remove ..).trans (if_pos rfl)
      · intro hnot
        refine (OrdMap.get_remove ..).trans (if_neg ?_)
        rintro rfl
        exact hnot ⟨stored, hstored, not_not.mp hkind, rfl⟩
  · rename_i hno
    refine ⟨?_, fun _ => rfl⟩
    rintro ⟨stored, hstored, -⟩
    exact absurd hstored (hno stored)

theorem hashes_forgetTx (s : StableState W) (id : TxId) (h : ByteArr 32) :
    (HashOf c s id h → (forgetTx c s id).ethTxHashIndex.get h = none) ∧
      (¬ HashOf c s id h → (forgetTx c s id).ethTxHashIndex.get h = s.ethTxHashIndex.get h) := by
  obtain ⟨keys, index, hfee⟩ := removePendingFeeIndexByTxId_eq s id
  obtain ⟨counts, hcount⟩ := decrementPrincipalPendingCountForTx_eq c
    { s with pendingFeeKeyByTxId := keys, pendingFeeIndex := index } id
  rw [forgetTx, hfee, hcount]
  exact hashes_removeEthTxHash (txLocsRemove
    { s with
      pendingFeeKeyByTxId := keys
      pendingFeeIndex := index
      principalPendingCount := counts
      receipts := s.receipts.remove id
      txIndex := s.txIndex.remove id
      internalTraces := s.internalTraces.remove id } id) id h

theorem hashOf_forgetTx {s : StableState W} {id j : TxId} {h : ByteArr 32} :
    HashOf c (forgetTx c s id) j h ↔ j ≠ id ∧ HashOf c s j h := by
  have hstore : (forgetTx c s id).txStore.get j = if j = id then none else s.txStore.get j := by
    have hrecord := congrArg TxRecord.stored (txRecord_forgetTx (c := c) s id j)
    change (forgetTx c s id).txStore.get j = _ at hrecord
    rw [hrecord]
    split_ifs
    · rfl
    · rfl
  simp only [HashOf, storedTx, hstore]
  by_cases hj : j = id
  · simp [hj]
  · simp [hj]

theorem hashes_forgetTxs (ids : List TxId) (s : StableState W) (h : ByteArr 32) :
    ((∃ id ∈ ids, HashOf c s id h) → (ids.foldl (forgetTx c) s).ethTxHashIndex.get h = none) ∧
      ((∀ id ∈ ids, ¬ HashOf c s id h) →
        (ids.foldl (forgetTx c) s).ethTxHashIndex.get h = s.ethTxHashIndex.get h) := by
  induction ids generalizing s with
  | nil => exact ⟨fun hsome => absurd hsome (by simp), fun _ => rfl⟩
  | cons id ids ih =>
      obtain ⟨hgone, hkept⟩ := ih (forgetTx c s id)
      obtain ⟨hone, hother⟩ := hashes_forgetTx (c := c) s id h
      rw [List.foldl_cons]
      refine ⟨?_, ?_⟩
      · rintro ⟨j, hj, hof⟩
        by_cases hlater : ∃ k ∈ ids, HashOf c (forgetTx c s id) k h
        · exact hgone hlater
        · have hnone (k : TxId) (hk : k ∈ ids) : ¬ HashOf c (forgetTx c s id) k h :=
            fun hof => hlater ⟨k, hk, hof⟩
          rw [hkept hnone]
          refine hone ?_
          by_cases hsame : j = id
          · exact hsame ▸ hof
          · have hmem := (List.mem_cons.mp hj).resolve_left hsame
            exact absurd (hashOf_forgetTx.mpr ⟨hsame, hof⟩) (hnone j hmem)
      · intro hnot
        obtain ⟨hhead, htail⟩ := List.forall_mem_cons.mp hnot
        rw [hkept (fun k hk hof => htail k hk (hashOf_forgetTx.mp hof).2), hother hhead]

theorem fees_forgetTxs {ids : List TxId} {s : StableState W}
    (h : ∀ id ∈ ids, s.pendingFeeKeyByTxId.get id = none) :
    (ids.foldl (forgetTx c) s).pendingFeeKeyByTxId = s.pendingFeeKeyByTxId ∧
      (ids.foldl (forgetTx c) s).pendingFeeIndex = s.pendingFeeIndex := by
  induction ids generalizing s with
  | nil => exact ⟨rfl, rfl⟩
  | cons id ids ih =>
      obtain ⟨hid, hids⟩ := List.forall_mem_cons.mp h
      have hone : (forgetTx c s id).pendingFeeKeyByTxId = s.pendingFeeKeyByTxId ∧
          (forgetTx c s id).pendingFeeIndex = s.pendingFeeIndex := by
        have hfee : removePendingFeeIndexByTxId s id = s := by
          rw [removePendingFeeIndexByTxId, hid]
        obtain ⟨counts, hcount⟩ := decrementPrincipalPendingCountForTx_eq c s id
        obtain ⟨hashes, hhash⟩ := removeEthTxHashIndexForTxId_eq c (txLocsRemove
          { s with
            principalPendingCount := counts
            receipts := s.receipts.remove id
            txIndex := s.txIndex.remove id
            internalTraces := s.internalTraces.remove id } id) id
        rw [forgetTx, hfee, hcount]
        dsimp only
        rw [hhash]
        exact ⟨rfl, rfl⟩
      obtain ⟨hkeys, hindex⟩ := ih (s := forgetTx c s id) (by rw [hone.1]; exact hids)
      rw [List.foldl_cons, hkeys, hindex]
      exact hone

end Kasane.Chain
