import Kasane.Chain.PoolSteps
import Kasane.Chain.Shelf

namespace Kasane.Chain

open BigEndian Codec Word Blob

variable {W : Type} {c : Crypto} {evm : Evm W}

-- upkeep of the queue leaves the chain, its blobs and the prune journal alone
structure OffQueue (s t : StableState W) : Prop where
  view : t.exportView = s.exportView
  pruneJournal : t.pruneJournal = s.pruneJournal

theorem OffQueue.refl (s : StableState W) : OffQueue s s := ⟨rfl, rfl⟩

theorem OffQueue.trans {s t u : StableState W} (h : OffQueue s t) (h' : OffQueue t u) :
    OffQueue s u :=
  ⟨h'.view.trans h.view, h'.pruneJournal.trans h.pruneJournal⟩

theorem journal_promote (s : StableState W) (sender : Address) (id : TxId) (nonce : Nat)
    (envelope : StoredTxBytes) (seq : Nat) :
    (promoteIfNextNonce s sender id nonce envelope seq).pruneJournal = s.pruneJournal := by
  rw [promoteIfNextNonce]
  split
  · rfl
  · split
    · rfl
    · split
      · rfl
      · rename_i old _
        have hready : (removeReadyByTxId s old).pruneJournal = s.pruneJournal := by
          rw [removeReadyByTxId]
          split
          · rfl
          · rfl
        exact hready
  · rfl

theorem offQueue_step {s t : StableState W} (h : PoolStep c s t) : OffQueue s t := by
  cases h with
  | touched nonces m => exact ⟨rfl, rfl⟩
  | @dropped p id e _ _ nonces code =>
      obtain ⟨keys, index, hashes, locs, ring, ringState, heq⟩ :=
        markDropped_eq (c := c) { unlinked c s id e with senderExpectedNonce := nonces } id code
      rw [dropped, heq]
      exact ⟨rfl, rfl⟩
  | @queued p sender nonce price envelope _ _ _ _ _ _ _ =>
      refine ⟨view_enqueuePending .., ?_⟩
      obtain ⟨hashes, heq⟩ := enqueuePending_linked (c := c) s sender nonce price envelope
      rw [heq, journal_promote]
      rfl

theorem offQueue_steps {s t : StableState W} (h : PoolSteps c s t) : OffQueue s t := by
  induction h with
  | refl => exact .refl s
  | tail _ hstep ih => exact ih.trans (offQueue_step hstep)

theorem rebuildRuntime_frame (evm : Evm W) {s : StableState W} {p : Pool}
    (h : Consistent c False s p) :
    ∃ counts seqs index keys, rebuildPendingRuntimeIndexes c evm s =
      { s with
        principalPendingCount := counts
        readyBySeq := seqs
        pendingFeeIndex := index
        pendingFeeKeyByTxId := keys } := by
  obtain ⟨index, keys, hfee⟩ := rebuildPendingFee_frame (c := c)
    (recounted c s).chainState.baseFee (recounted c s)
  rw [rebuildPendingRuntimeIndexes]
  simp only [recount_eq h]
  rw [hfee, foldl_indexReadySeq]
  exact ⟨_, _, _, _, rfl⟩

-- what including transactions does to the other records of the chain
structure Lays (number : Nat) (included : List StagedIncluded) (s t : StableState W) : Prop where
  located : ∀ staged ∈ included,
    t.txLocs.get staged.txId = some (.included number staged.outcome.txIndex)
  others : ∀ id, id ∉ included.map StagedIncluded.txId → t.txLocs.get id = s.txLocs.get id
  pending : ∀ id, t.pendingMetaByTxId.get id =
    if id ∈ included.map StagedIncluded.txId then none else s.pendingMetaByTxId.get id
  seenTx : t.seenTx = s.seenTx
  txStore : t.txStore = s.txStore
  ethTxHashIndex : t.ethTxHashIndex = s.ethTxHashIndex
  droppedRing : t.droppedRing = s.droppedRing
  droppedRingState : t.droppedRingState = s.droppedRingState
  queueMeta : t.queueMeta = s.queueMeta
  pruneJournal : t.pruneJournal = s.pruneJournal

theorem includeTx_unlinked (evm : Evm W) (number : Nat) {s : StableState W} {p : Pool}
    {q : StagedPersist} {e : PoolEntry} (h : Indexed s.pendingMaps p)
    (hid : p.entry q.staged.txId = some e) :
    ∃ nonces, includeTx c evm number s q =
      { unlinked c (recordIncluded number s q) q.staged.txId e with senderExpectedNonce := nonces } := by
  have hrecorded : Indexed (recordIncluded number s q).pendingMaps p := h
  obtain ⟨nonces, heq⟩ := advanceSender_eq (c := c) (s := recordIncluded number s q) evm hrecorded
    hid (some q.staged.sender) (some q.staged.nonce) true
  exact ⟨nonces, by rw [includeTx_eq, heq]⟩

theorem lays_includeTx (evm : Evm W) (number : Nat) {s : StableState W} {p : Pool}
    {q : StagedPersist} {e : PoolEntry} (h : Indexed s.pendingMaps p)
    (hid : p.entry q.staged.txId = some e) : Lays number [q.staged] s (includeTx c evm number s q) := by
  obtain ⟨nonces, heq⟩ := includeTx_unlinked (c := c) evm number h hid
  rw [heq]
  refine ⟨?_, ?_, ?_, rfl, rfl, rfl, rfl, rfl, rfl, rfl⟩
  · intro staged hstaged
    obtain rfl := List.mem_singleton.mp hstaged
    exact (OrdMap.get_insert ..).trans (if_pos rfl)
  · intro id hne
    exact (OrdMap.get_insert ..).trans (if_neg (by simpa using hne))
  · intro id
    refine (OrdMap.get_remove ..).trans ?_
    simp [recordIncluded]

theorem Lays.cons {number : Nat} {staged : StagedIncluded} {included : List StagedIncluded}
    {s t u : StableState W} (h : Lays number [staged] s t) (h' : Lays number included t u)
    (hnot : staged.txId ∉ included.map StagedIncluded.txId) :
    Lays number (staged :: included) s u where
  located := by
    intro other hother
    rcases List.mem_cons.mp hother with rfl | hother
    · rw [h'.others _ hnot]
      exact h.located other (List.mem_singleton_self other)
    · exact h'.located other hother
  others := by
    intro id hid
    rw [List.map_cons, List.mem_cons, not_or] at hid
    rw [h'.others id hid.2]
    exact h.others id (by simpa using hid.1)
  pending := by
    intro id
    rw [h'.pending, h.pending, List.map_cons, List.map_nil]
    by_cases hlater : id ∈ included.map StagedIncluded.txId
    · have hmem : id ∈ (staged :: included).map StagedIncluded.txId :=
        List.mem_cons_of_mem _ hlater
      rw [if_pos hlater, if_pos hmem]
    · by_cases hid : id = staged.txId
      · simp [hid]
      · simp [hid, hlater]
  seenTx := h'.seenTx.trans h.seenTx
  txStore := h'.txStore.trans h.txStore
  ethTxHashIndex := h'.ethTxHashIndex.trans h.ethTxHashIndex
  droppedRing := h'.droppedRing.trans h.droppedRing
  droppedRingState := h'.droppedRingState.trans h.droppedRingState
  queueMeta := h'.queueMeta.trans h.queueMeta
  pruneJournal := h'.pruneJournal.trans h.pruneJournal

theorem lays_includeAll (evm : Evm W) (number : Nat) {s : StableState W} {p : Pool}
    {persisted : List StagedPersist} (h : Consistent c False s p)
    (hp : Pending p (persisted.map (fun q => q.staged.txId))) :
    Lays number (persisted.map StagedPersist.staged) s
      (persisted.foldl (includeTx c evm number) s) := by
  induction persisted generalizing s p with
  | nil => exact ⟨by simp, fun _ _ => rfl, by simp, rfl, rfl, rfl, rfl, rfl, rfl, rfl⟩
  | cons q persisted ih =>
      obtain ⟨e, he⟩ := hp.pending q.staged.txId (List.mem_cons_self ..)
      have hone := retires_includeTx evm number s p q e h he
      rw [List.foldl_cons, List.map_cons]
      refine (lays_includeTx evm number h.indexed he).cons (ih hone.consistent (hp.tail hone.kept)) ?_
      have hnot := (List.nodup_cons.mp hp.nodup).1
      rwa [List.map_map]

-- a commit is upkeep of the queue, and then the laying of one block
structure Laying (c : Crypto) (number : Nat) (included : List StagedIncluded)
    (s u t : StableState W) : Prop where
  upkeep : PoolSteps c s u
  consistent : ∃ p, Consistent c False u p ∧ Pending p (included.map StagedIncluded.txId)
  lays : Lays number included u t

-- a commit drops, stores and includes; what it edits besides is on the chain's side
structure Fills (c : Crypto) (evm : Evm W) (number : Nat) (block : BlockData)
    (drops : List QueuedDrop) (included : List StagedIncluded) (s t : StableState W)
    (persisted : List StagedPersist) (u : StableState W) (p : Pool) : Prop where
  staged : persisted.map StagedPersist.staged = included
  stored : ∃ blobs oldest, u =
    { applyDrops c evm s drops with blobStore := blobs, oldestBlock := oldest }
  oldest : u.oldestBlock = (applyDrops c evm s drops).oldestBlock.or
    (some (block.number.toNat, block.timestamp.toNat))
  upkeep : PoolSteps c s (applyDrops c evm s drops)
  dropped : Consistent c False (applyDrops c evm s drops) p
  consistent : Consistent c False u p
  pending : Pending p (included.map StagedIncluded.txId)
  edits : ∃ blocks head chainState index keys, t =
    { persisted.foldl (includeTx c evm number) u with
      blocks := blocks
      head := head
      chainState := chainState
      pendingFeeIndex := index
      pendingFeeKeyByTxId := keys }

theorem oldest_storeBlock {env : CallEnv} {s t : StableState W} {block : BlockData} {ptr : BlobPtr}
    (h : storeBlock env s block = some (ptr, t)) :
    t.oldestBlock = s.oldestBlock.or (some (block.number.toNat, block.timestamp.toNat)) := by
  obtain ⟨⟨q, u⟩, hstore, heq⟩ := Option.map_eq_some_iff.mp h
  obtain ⟨rfl, rfl⟩ := Prod.mk.inj heq
  obtain ⟨blobs, rfl, -, -⟩ := storeBytes_some hstore
  dsimp only
  cases hold : s.oldestBlock with
  | none => rw [if_pos rfl, Option.none_or]
  | some oldest =>
      rw [if_neg (by simp), Option.some_or]

theorem fills_commitBlock {env : CallEnv} {ctx : BlockExecContext} {gasUsed : Nat}
    {block : BlockData} {drops : List QueuedDrop} {included : List StagedIncluded}
    {s t : StableState W} {p : Pool} (h : Consistent c False s p)
    (hp : Pending p (drops.map QueuedDrop.txId ++ included.map StagedIncluded.txId))
    (hrun : commitBlock c evm env ctx gasUsed block drops included s = some t) :
    ∃ persisted u q, Fills c evm ctx.blockNumber block drops included s t persisted u q := by
  obtain ⟨p₁, hdrops⟩ := retires_applyDrops evm h hp.left
  obtain ⟨⟨persisted, s₂⟩, hpersist, hrun⟩ := Option.bind_eq_some_iff.mp hrun
  obtain ⟨⟨ptr, s₃⟩, hstore, hrun⟩ := Option.bind_eq_some_iff.mp hrun
  obtain ⟨hstaged, b₂, rfl, hk₂⟩ := persistAll_some hpersist
  have hstored := oldest_storeBlock hstore
  obtain ⟨b₃, oldest, rfl, hk₃, -⟩ := storeBlock_some hstore
  have h₃ : Consistent c False
      { applyDrops c evm s drops with blobStore := b₃, oldestBlock := oldest } p₁ := by
    have hblobs := consistent_blobs hdrops.consistent (hk₂.trans hk₃)
    exact ⟨hblobs.indexed, hblobs.backed, hblobs.archived, hblobs.bounded, hblobs.counted⟩
  obtain rfl := Option.some.inj hrun
  obtain ⟨index, keys, hfee⟩ := rebuildPendingFee_frame (c := c) (W := W) _ _
  refine ⟨persisted, _, p₁, hstaged, ⟨b₃, oldest, rfl⟩, hstored, steps_applyDrops h hp.left,
    hdrops.consistent, h₃, hp.right hdrops.kept, ?_⟩
  exact ⟨_, _, _, index, keys, hfee⟩

theorem Fills.persisted_ids {number : Nat} {block : BlockData} {drops : List QueuedDrop}
    {included : List StagedIncluded} {s t u : StableState W} {persisted : List StagedPersist}
    {p : Pool} (h : Fills c evm number block drops included s t persisted u p) :
    Pending p (persisted.map (fun q => q.staged.txId)) := by
  have hids : persisted.map (fun q => q.staged.txId) = included.map StagedIncluded.txId := by
    rw [← h.staged, List.map_map]
    rfl
  rw [hids]
  exact h.pending

theorem Fills.laying {number : Nat} {block : BlockData} {drops : List QueuedDrop}
    {included : List StagedIncluded} {s t u : StableState W} {persisted : List StagedPersist}
    {p : Pool} (h : Fills c evm number block drops included s t persisted u p) :
    Laying c number included s (applyDrops c evm s drops) t := by
  have hlays := lays_includeAll evm number h.consistent h.persisted_ids
  rw [h.staged] at hlays
  obtain ⟨blobs, oldest, rfl⟩ := h.stored
  obtain ⟨blocks, head, chainState, index, keys, rfl⟩ := h.edits
  refine ⟨h.upkeep, ⟨p, h.dropped, h.pending⟩, ?_⟩
  exact ⟨hlays.located, hlays.others, hlays.pending, hlays.seenTx, hlays.txStore,
    hlays.ethTxHashIndex, hlays.droppedRing, hlays.droppedRingState, hlays.queueMeta,
    hlays.pruneJournal⟩

end Kasane.Chain
