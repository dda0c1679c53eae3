import Kasane.Chain.Forget

namespace Kasane.Chain

open BigEndian Codec Word Blob

variable {W : Type} {c : Crypto}

-- what no pruning reaches
structure UnprunedView (W : Type) where
  world : W
  chainState : ChainState
  head : Head
  queueMeta : QueueMeta
  pendingBySenderNonce : OrdMap SenderNonceKey TxId
  pendingMetaByTxId : OrdMap TxId SenderNonceKey
  pendingCurrentBySender : OrdMap Address TxId
  pendingMinNonce : OrdMap Address Nat
  senderExpectedNonce : OrdMap Address Nat
  readyQueue : OrdMap ReadyKey TxId
  readyBySeq : OrdMap ReadySeqKey TxId
  readyKeyByTxId : OrdMap TxId ReadyKey
  droppedRing : OrdMap Nat TxId
  droppedRingState : DroppedRingState
  decodeSuppressUntil : OrdMap Principal Nat

def StableState.unpruned (s : StableState W) : UnprunedView W where
  world := s.world
  chainState := s.chainState
  head := s.head
  queueMeta := s.queueMeta
  pendingBySenderNonce := s.pendingBySenderNonce
  pendingMetaByTxId := s.pendingMetaByTxId
  pendingCurrentBySender := s.pendingCurrentBySender
  pendingMinNonce := s.pendingMinNonce
  senderExpectedNonce := s.senderExpectedNonce
  readyQueue := s.readyQueue
  readyBySeq := s.readyBySeq
  readyKeyByTxId := s.readyKeyByTxId
  droppedRing := s.droppedRing
  droppedRingState := s.droppedRingState
  decodeSuppressUntil := s.decodeSuppressUntil

-- t is s without one block and without all that belonged to it
structure ForgetsBlock (c : Crypto) (number : Nat) (block : BlockData) (s t : StableState W) :
    Prop where
  shelved : Shelved t
  blocks : t.blocks = s.blocks.remove number
  record : ∀ id, t.txRecord id = if id ∈ block.txIds then .none else s.txRecord id
  shelf : ∀ slot, t.shelf slot = if slot ∈ blockSlots number block then none else s.shelf slot
  freed : ∀ slot ∈ blockSlots number block, ∀ ptr, s.shelf slot = some ptr → t.blobStore.Freed ptr
  stillFreed : ∀ ptr, s.blobStore.Freed ptr → t.blobStore.Freed ptr
  holds : ∀ slot ptr data, t.shelf slot = some ptr → s.blobStore.Holds ptr data →
    t.blobStore.Holds ptr data
  unhashed : ∀ h, (∃ id ∈ block.txIds, HashOf c s id h) → t.ethTxHashIndex.get h = none
  hashed : ∀ h, (∀ id ∈ block.txIds, ¬ HashOf c s id h) →
    t.ethTxHashIndex.get h = s.ethTxHashIndex.get h
  unpruned : t.unpruned = s.unpruned
  fees : (∀ id ∈ block.txIds, s.pendingFeeKeyByTxId.get id = none) →
    t.pendingFeeKeyByTxId = s.pendingFeeKeyByTxId ∧ t.pendingFeeIndex = s.pendingFeeIndex

theorem pruneOneBlock_forgets {cur : PruneCursor} {block : BlockData} {s : StableState W}
    (h : Shelved s) : ∃ t, pruneOneBlock c cur block s = (.ok (), t) ∧
      ForgetsBlock c cur.next block s t ∧
      t.pruneState = (cur.pruneState.setPrunedBefore cur.next).clearJournal := by
  have hknown : ∀ ptr ∈ collectPtrsForBlock s cur.next block, s.blobStore.KnownAs ptr := by
    intro ptr hptr
    obtain ⟨slot, -, hslot⟩ := mem_collectPtrs.mp hptr
    exact h.knownAs hslot
  obtain ⟨blobs, hreclaim, hreclaims⟩ := BlobStore.reclaims_all hknown
  let u := forgetBlock c cur.next block (journaledState cur block s)
  have hu : u = forgetBlock c cur.next block (journaledState cur block s) := rfl
  obtain ⟨index, keys, counts, hashes, receipts, txIndex, traces, locs, store, seen, heq⟩ :=
    forgetTxs_eq (c := c) block.txIds
      { journaledState cur block s with blocks := (journaledState cur block s).blocks.remove cur.next }
  have hstore : u.blobStore = s.blobStore := by
    rw [hu, forgetBlock, heq]
    rfl
  have hshelf (slot : Slot) : u.shelf slot =
      if slot ∈ blockSlots cur.next block then none else s.shelf slot :=
    shelf_forgetBlock cur.next block _ slot
  have hfewer (slot : Slot) (ptr : BlobPtr) (hslot : u.shelf slot = some ptr) :
      slot ∉ blockSlots cur.next block ∧ s.shelf slot = some ptr := by
    rw [hshelf] at hslot
    split_ifs at hslot with hmem
    exact ⟨hmem, hslot⟩
  have hapart (slot : Slot) (q : BlobPtr) (hslot : u.shelf slot = some q) :
      ∀ ptr ∈ collectPtrsForBlock s cur.next block, ptr.key ≠ q.key := by
    intro ptr hptr
    obtain ⟨other, hother, hptr⟩ := mem_collectPtrs.mp hptr
    obtain ⟨hmem, hq⟩ := hfewer slot q hslot
    exact h.apart other slot ptr q hptr hq (fun hsame => hmem (hsame ▸ hother))
  have hrun : pruneOneBlock c cur block s = (.ok (),
      { u with
        blobStore := blobs
        pruneJournal := u.pruneJournal.remove (saturatingAdd u64Max cur.next 1 - 1)
        pruneState := (cur.pruneState.setPrunedBefore cur.next).clearJournal }) := by
    have hsteps : runSteps c (dropBlockSteps cur.next block) (journaledState cur block s) =
        (.ok (), u) := runSteps_dropBlock cur.next block _
    have hptrs : (collectPtrsForBlock s cur.next block).foldlM BlobStore.reclaimForPrune
        u.blobStore = .ok blobs := by rw [hstore]; exact hreclaim
    rw [pruneOneBlock_eq, blockSteps, destructiveSteps, runSteps_append, hsteps]
    dsimp only
    rw [runSteps_append, runSteps_reclaim hptrs]
    rfl
  refine ⟨_, hrun, ?_, rfl⟩
  constructor
  · have htenants : u.blobStore.Tenants u.shelf := by
      rw [hstore]
      exact BlobStore.Tenants.vacate h (fun slot ptr hslot => (hfewer slot ptr hslot).2)
    rw [hstore] at htenants
    exact htenants.reclaimed hapart hreclaims
  · exact blocks_forgetBlock cur.next block _
  · exact txRecord_forgetBlock cur.next block _
  · exact hshelf
  · intro slot hslot ptr hptr
    exact hreclaims.freed ptr (mem_collectPtrs.mpr ⟨slot, hslot, hptr⟩)
  · exact hreclaims.stillFreed
  · intro slot ptr data hslot hheld
    exact hreclaims.holds ptr data (hapart slot ptr hslot) hheld
  · intro hash
    exact (hashes_forgetTxs (c := c) block.txIds { journaledState cur block s with
      blocks := (journaledState cur block s).blocks.remove cur.next } hash).1
  · intro hash
    exact (hashes_forgetTxs (c := c) block.txIds { journaledState cur block s with
      blocks := (journaledState cur block s).blocks.remove cur.next } hash).2
  · change u.unpruned = s.unpruned
    rw [hu, forgetBlock, heq]
    rfl
  · intro hfees
    exact fees_forgetTxs (c := c) (s := { journaledState cur block s with
      blocks := (journaledState cur block s).blocks.remove cur.next }) hfees

def StoredBelow (s : StableState W) (next : Nat) (id : TxId) : Prop :=
  ∃ n block, n < next ∧ loadBlock s n = some block ∧ id ∈ block.txIds

-- t is s without any block below next
structure Trimmed (c : Crypto) (next : Nat) (s t : StableState W) : Prop where
  shelved : Shelved t
  blocks : ∀ n, t.blocks.get n = if n < next then none else s.blocks.get n
  gone : ∀ id, StoredBelow s next id → t.txRecord id = .none
  kept : ∀ id, ¬ StoredBelow s next id → t.txRecord id = s.txRecord id
  fewer : ∀ slot ptr, t.shelf slot = some ptr → s.shelf slot = some ptr
  vacated : ∀ slot ptr, s.shelf slot = some ptr → t.shelf slot = none → t.blobStore.Freed ptr
  holds : ∀ slot ptr data, t.shelf slot = some ptr → s.blobStore.Holds ptr data →
    t.blobStore.Holds ptr data
  unhashed : ∀ id h, StoredBelow s next id → HashOf c s id h → t.ethTxHashIndex.get h = none
  hashed : ∀ h, (∀ id, StoredBelow s next id → ¬ HashOf c s id h) →
    t.ethTxHashIndex.get h = s.ethTxHashIndex.get h
  unpruned : t.unpruned = s.unpruned
  fees : (∀ id, StoredBelow s next id → s.pendingFeeKeyByTxId.get id = none) →
    t.pendingFeeKeyByTxId = s.pendingFeeKeyByTxId ∧ t.pendingFeeIndex = s.pendingFeeIndex

def Loads (s : StableState W) : Prop :=
  ∀ n ptr, s.blocks.get n = some ptr → ∃ block, loadBlock s n = some block

theorem loadBlock_of_holds {s t : StableState W} {n : Nat} {ptr : BlobPtr} {data : Bytes}
    (hs : s.blobStore.Sound) (ht : t.blobStore.Sound) (hptr : s.blocks.get n = some ptr)
    (hptr' : t.blocks.get n = some ptr) (hheld : s.blobStore.Holds ptr data)
    (hheld' : t.blobStore.Holds ptr data) : loadBlock t n = loadBlock s n := by
  rw [loadBlock_eq, loadBlock_eq]
  refine blockAt_congr hptr hptr' ?_
  rw [BlobStore.read_of_holds hs hheld, BlobStore.read_of_holds ht hheld']

theorem Trimmed.loads {next n : Nat} {s t : StableState W} (hs : Shelved s)
    (h : Trimmed c next s t) (hn : next ≤ n) : loadBlock t n = loadBlock s n := by
  have hblock : t.blocks.get n = s.blocks.get n := by
    rw [h.blocks, if_neg (not_lt.mpr hn)]
  cases hptr : s.blocks.get n with
  | none =>
      rw [loadBlock_none_of_blocks hptr, loadBlock_none_of_blocks (hblock.trans hptr)]
  | some ptr =>
      have hptr' := hblock.trans hptr
      obtain ⟨data, hheld⟩ := hs.held (.block n) ptr hptr
      exact loadBlock_of_holds hs.sound h.shelved.sound hptr hptr' hheld
        (h.holds (.block n) ptr data hptr' hheld)

theorem Trimmed.freed {next n : Nat} {block : BlockData} {s t : StableState W}
    (h : Trimmed c next s t) (hn : n < next) (hload : loadBlock s n = some block) {slot : Slot}
    (hslot : slot ∈ blockSlots n block) {ptr : BlobPtr} (hptr : s.shelf slot = some ptr) :
    t.blobStore.Freed ptr := by
  refine h.vacated slot ptr hptr ?_
  have hgone (id : TxId) (hid : id ∈ block.txIds) : t.txRecord id = .none :=
    h.gone id ⟨n, block, hn, hload, hid⟩
  rcases mem_blockSlots.mp hslot with rfl | ⟨id, hid, rfl | rfl | rfl⟩
  · exact (h.blocks n).trans (if_pos hn)
  · exact congrArg TxRecord.receipt (hgone id hid)
  · exact congrArg TxRecord.txIndex (hgone id hid)
  · exact congrArg TxRecord.internalTraces (hgone id hid)

theorem trimmed_start {next : Nat} {s : StableState W} (hs : Shelved s)
    (hgone : ∀ n, n < next → s.blocks.get n = none) : Trimmed c next s s := by
  have hload (n : Nat) (hn : n < next) : loadBlock s n = none :=
    loadBlock_none_of_blocks (hgone n hn)
  have hbelow (id : TxId) : ¬ StoredBelow s next id := by
    rintro ⟨n, block, hn, hblock, -⟩
    exact absurd ((hload n hn).symm.trans hblock) (by simp)
  refine ⟨hs, ?_, fun id hid => absurd hid (hbelow id), fun _ _ => rfl, fun _ _ h => h, ?_,
    fun _ _ _ _ h => h, fun id _ hid => absurd hid (hbelow id), fun _ _ => rfl, rfl,
    fun _ => ⟨rfl, rfl⟩⟩
  · intro n
    split_ifs with hn
    · exact hgone n hn
    · rfl
  · intro slot ptr hptr hnone
    exact absurd (hptr.symm.trans hnone) (by simp)

theorem storedBelow_succ {next : Nat} {s : StableState W} {id : TxId} :
    StoredBelow s (next + 1) id ↔
      StoredBelow s next id ∨ ∃ block, loadBlock s next = some block ∧ id ∈ block.txIds := by
  constructor
  · rintro ⟨n, block, hn, hblock, hid⟩
    rcases Nat.lt_succ_iff_lt_or_eq.mp hn with hlt | rfl
    · exact .inl ⟨n, block, hlt, hblock, hid⟩
    · exact .inr ⟨block, hblock, hid⟩
  · rintro (⟨n, block, hn, hblock, hid⟩ | ⟨block, hblock, hid⟩)
    · exact ⟨n, block, Nat.lt_succ_of_lt hn, hblock, hid⟩
    · exact ⟨next, block, Nat.lt_succ_self _, hblock, hid⟩

-- an absent block needs no work
theorem Trimmed.skip {next : Nat} {s t : StableState W} (h : Trimmed c next s t)
    (hnone : s.blocks.get next = none) : Trimmed c (next + 1) s t := by
  have hload : loadBlock s next = none := loadBlock_none_of_blocks hnone
  have hbelow (id : TxId) : StoredBelow s (next + 1) id ↔ StoredBelow s next id := by
    rw [storedBelow_succ, hload]
    simp
  refine ⟨h.shelved, ?_, ?_, ?_, h.fewer, h.vacated, h.holds, ?_, ?_, h.unpruned, ?_⟩
  · intro n
    rw [h.blocks]
    rcases Nat.lt_trichotomy n next with hlt | rfl | hgt
    · rw [if_pos hlt, if_pos (Nat.lt_succ_of_lt hlt)]
    · rw [if_neg (lt_irrefl _), if_pos (Nat.lt_succ_self _), hnone]
    · rw [if_neg (by omega), if_neg (by omega)]
  · exact fun id hid => h.gone id ((hbelow id).mp hid)
  · exact fun id hid => h.kept id (fun hid' => hid ((hbelow id).mpr hid'))
  · exact fun id hash hid => h.unhashed id hash ((hbelow id).mp hid)
  · exact fun hash hnot => h.hashed hash (fun id hid => hnot id ((hbelow id).mpr hid))
  · exact fun hfees => h.fees (fun id hid => hfees id ((hbelow id).mpr hid))

theorem hashOf_congr {s t : StableState W} {id : TxId} {h : ByteArr 32}
    (hstore : t.txStore.get id = s.txStore.get id) : HashOf c t id h ↔ HashOf c s id h := by
  simp only [HashOf, storedTx, hstore]

theorem Trimmed.forget {next : Nat} {block : BlockData} {s t u : StableState W}
    (h : Trimmed c next s t) (hload : loadBlock s next = some block)
    (hforget : ForgetsBlock c next block t u) : Trimmed c (next + 1) s u := by
  have hbelow (id : TxId) :
      StoredBelow s (next + 1) id ↔ StoredBelow s next id ∨ id ∈ block.txIds := by
    rw [storedBelow_succ, hload]
    simp
  have hsame (id : TxId) (hid : ¬ StoredBelow s next id) :
      t.txStore.get id = s.txStore.get id := congrArg TxRecord.stored (h.kept id hid)
  have hfewer (slot : Slot) (ptr : BlobPtr) (hslot : u.shelf slot = some ptr) :
      t.shelf slot = some ptr := by
    rw [hforget.shelf] at hslot
    split_ifs at hslot
    exact hslot
  refine ⟨hforget.shelved, ?_, ?_, ?_, fun slot ptr hslot => h.fewer slot ptr (hfewer slot ptr hslot),
    ?_, ?_, ?_, ?_, hforget.unpruned.trans h.unpruned, ?_⟩
  · intro n
    rw [hforget.blocks, OrdMap.get_remove, h.blocks]
    rcases Nat.lt_trichotomy n next with hlt | rfl | hgt
    · rw [if_neg (ne_of_lt hlt), if_pos hlt, if_pos (Nat.lt_succ_of_lt hlt)]
    · rw [if_pos rfl, if_pos (Nat.lt_succ_self _)]
    · rw [if_neg (by omega), if_neg (by omega), if_neg (by omega)]
  · intro id hid
    rw [hforget.record]
    split_ifs with hmem
    · rfl
    · exact h.gone id (((hbelow id).mp hid).resolve_right hmem)
  · intro id hid
    have hnot : id ∉ block.txIds := fun hmem => hid ((hbelow id).mpr (.inr hmem))
    rw [hforget.record, if_neg hnot]
    exact h.kept id (fun hlow => hid ((hbelow id).mpr (.inl hlow)))
  · intro slot ptr hptr hnone
    cases hstill : t.shelf slot with
    | none => exact hforget.stillFreed ptr (h.vacated slot ptr hptr hstill)
    | some q =>
        obtain rfl := Option.some.inj (hptr.symm.trans (h.fewer slot q hstill))
        have hmem : slot ∈ blockSlots next block := by
          rw [hforget.shelf] at hnone
          split_ifs at hnone with hmem
          · exact hmem
          · exact absurd (hstill.symm.trans hnone) (by simp)
        exact hforget.freed slot hmem ptr hstill
  · intro slot ptr data hslot hheld
    exact hforget.holds slot ptr data hslot (h.holds slot ptr data (hfewer slot ptr hslot) hheld)
  · intro id hash hid hof
    by_cases hlow : StoredBelow s next id
    · have hnone := h.unhashed id hash hlow hof
      by_cases hagain : ∃ j ∈ block.txIds, HashOf c t j hash
      · exact hforget.unhashed hash hagain
      · rw [hforget.hashed hash (fun j hj hj' => hagain ⟨j, hj, hj'⟩)]
        exact hnone
    · have hmem := ((hbelow id).mp hid).resolve_left hlow
      exact hforget.unhashed hash ⟨id, hmem, (hashOf_congr (hsame id hlow)).mpr hof⟩
  · intro hash hnot
    have hnow (id : TxId) (hid : id ∈ block.txIds) : ¬ HashOf c t id hash := by
      intro hof
      by_cases hlow : StoredBelow s next id
      · have hnone : t.txStore.get id = none := congrArg TxRecord.stored (h.gone id hlow)
        obtain ⟨stored, hstored, -⟩ := hof
        rw [storedTx, hnone] at hstored
        exact absurd hstored (by simp)
      · exact hnot id ((hbelow id).mpr (.inr hid)) ((hashOf_congr (hsame id hlow)).mp hof)
    rw [hforget.hashed hash hnow]
    exact h.hashed hash (fun id hid => hnot id ((hbelow id).mpr (.inl hid)))
  · intro hfees
    obtain ⟨hkeys, hindex⟩ := h.fees (fun id hid => hfees id ((hbelow id).mpr (.inl hid)))
    have hnow : ∀ id ∈ block.txIds, t.pendingFeeKeyByTxId.get id = none := by
      intro id hid
      rw [hkeys]
      exact hfees id ((hbelow id).mpr (.inr hid))
    obtain ⟨hkeys', hindex'⟩ := hforget.fees hnow
    exact ⟨hkeys'.trans hkeys, hindex'.trans hindex⟩

end Kasane.Chain
