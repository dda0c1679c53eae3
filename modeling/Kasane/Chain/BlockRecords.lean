import Kasane.Chain.ConsistentProduce

namespace Kasane.Chain

open BigEndian Codec Word Blob

variable {W : Type} {c : Crypto} {counting : Prop}

structure SameRecords (s t : StableState W) : Prop where
  world : t.world = s.world
  receipts : t.receipts = s.receipts

theorem sameRecords_applyDrops (evm : Evm W) {s : StableState W} {p : Pool}
    {drops : List QueuedDrop} (h : Consistent c counting s p)
    (hp : Pending p (drops.map QueuedDrop.txId)) :
    SameRecords s (applyDrops c evm s drops) := by
  rw [applyDrops]
  induction drops generalizing s p with
  | nil => exact ⟨rfl, rfl⟩
  | cons d drops ih =>
      obtain ⟨e, he⟩ := hp.pending d.txId (List.mem_cons_self ..)
      have hone := retires_applyDrop evm s p d e h he
      obtain ⟨hworld, hreceipts⟩ := ih hone.consistent (hp.tail hone.kept)
      obtain ⟨nonces, ⟨hashes, locs, ring, ringState, heq⟩, -⟩ :=
        dropPending_effect (c := c) evm h.indexed he d.code d.senderOverride d.nonceOverride
      have hstep : applyDrop c evm s d = _ := heq
      refine ⟨hworld.trans ?_, hreceipts.trans ?_⟩
      · rw [hstep]
        rfl
      · rw [hstep]
        rfl

structure Includes (s t : StableState W) (persisted : List StagedPersist) : Prop where
  world : t.world = s.world
  blobStore : t.blobStore = s.blobStore
  receipt : ∀ q ∈ persisted, t.receipts.get q.staged.txId = some q.receiptPtr
  other : ∀ id, id ∉ persisted.map (fun q => q.staged.txId) → t.receipts.get id = s.receipts.get id

theorem includes_includeTx (evm : Evm W) (number : Nat) {s : StableState W} {p : Pool}
    {q : StagedPersist} {e : PoolEntry} (h : Consistent c counting s p)
    (hid : p.entry q.staged.txId = some e) : Includes s (includeTx c evm number s q) [q] := by
  obtain ⟨txIndex, traces, hinclude⟩ : ∃ txIndex traces,
      includeTx c evm number s q = advanceSender c evm
        { s with
          txIndex := txIndex
          receipts := s.receipts.insert q.staged.txId q.receiptPtr
          internalTraces := traces
          txLocs := s.txLocs.insert q.staged.txId (.included number q.staged.outcome.txIndex) }
        q.staged.txId (some q.staged.sender) (some q.staged.nonce) true := ⟨_, _, rfl⟩
  obtain ⟨nonces, heq⟩ := advanceSender_eq (c := c) evm
    (s := { s with
      txIndex := txIndex
      receipts := s.receipts.insert q.staged.txId q.receiptPtr
      internalTraces := traces
      txLocs := s.txLocs.insert q.staged.txId (.included number q.staged.outcome.txIndex) })
    h.indexed hid (some q.staged.sender) (some q.staged.nonce) true
  rw [hinclude, heq]
  refine ⟨rfl, rfl, ?_, ?_⟩
  · intro r hr
    obtain rfl := List.mem_singleton.mp hr
    exact (OrdMap.get_insert ..).trans (if_pos rfl)
  · intro id hne
    exact (OrdMap.get_insert ..).trans (if_neg (by simpa using hne))

theorem includes_includeAll (evm : Evm W) (number : Nat) {s : StableState W} {p : Pool}
    {persisted : List StagedPersist} (h : Consistent c counting s p)
    (hp : Pending p (persisted.map (fun q => q.staged.txId))) :
    Includes s (persisted.foldl (includeTx c evm number) s) persisted := by
  induction persisted generalizing s p with
  | nil => exact ⟨rfl, rfl, by simp, fun _ _ => rfl⟩
  | cons q persisted ih =>
      obtain ⟨e, he⟩ := hp.pending q.staged.txId (List.mem_cons_self ..)
      have hstep := retires_includeTx evm number s p q e h he
      have hone := includes_includeTx evm number h he
      obtain ⟨hworld, hblobs, hreceipt, hother⟩ := ih hstep.consistent (hp.tail hstep.kept)
      refine ⟨hworld.trans hone.world, hblobs.trans hone.blobStore, ?_, ?_⟩
      · intro r hr
        rcases List.mem_cons.mp hr with rfl | hr
        · rw [List.foldl_cons, hother _ (List.nodup_cons.mp hp.nodup).1]
          exact hone.receipt r (List.mem_singleton_self r)
        · exact hreceipt r hr
      · intro id hid
        rw [List.map_cons, List.mem_cons, not_or] at hid
        rw [List.foldl_cons, hother id hid.2]
        exact hone.other id (by simpa using hid.1)

structure Retains (s t : StableState W) : Prop where
  sound : t.blobStore.Sound
  holds : ∀ ptr data, s.blobStore.Holds ptr data → t.blobStore.Holds ptr data

theorem Retains.trans {s t u : StableState W} (h : Retains s t) (h' : Retains t u) : Retains s u :=
  ⟨h'.sound, fun ptr data hold => h'.holds ptr data (h.holds ptr data hold)⟩

theorem retains_storeBytes {env : CallEnv} {s t : StableState W} {bytes : Bytes} {ptr : BlobPtr}
    (hs : s.blobStore.Sound) (h : storeBytes env s bytes = some (ptr, t)) :
    Retains s t ∧ t.blobStore.Holds ptr bytes := by
  rw [storeBytes] at h
  split at h
  · rename_i q blobs hstore
    obtain ⟨rfl, rfl⟩ := Prod.mk.inj (Option.some.inj h)
    obtain ⟨hp, hlen, harena⟩ := BlobStore.storeBytes_ok hstore
    refine ⟨⟨BlobStore.sound_of_placed hs hp, ?_⟩, BlobStore.holds_storeBytes hstore⟩
    intro r data hold
    exact BlobStore.holds_of_placed hs hold hp hlen (Or.inr harena)
  · exact absurd h (by simp)

theorem retains_storeInternalTraces {env : CallEnv} {s t : StableState W} {bytes : Option Bytes}
    {ptr : Option BlobPtr} (hs : s.blobStore.Sound)
    (h : storeInternalTraces env s bytes = some (ptr, t)) : Retains s t := by
  cases bytes with
  | none =>
      obtain ⟨-, rfl⟩ := Prod.mk.inj (Option.some.inj h)
      exact ⟨hs, fun _ _ hold => hold⟩
  | some bytes =>
      obtain ⟨⟨q, u⟩, hstore, heq⟩ := Option.map_eq_some_iff.mp h
      obtain ⟨-, rfl⟩ := Prod.mk.inj heq
      exact (retains_storeBytes hs hstore).1

theorem retains_persistIncluded {env : CallEnv} {number : Nat} {s t : StableState W}
    {staged : StagedIncluded} {q : StagedPersist} (hs : s.blobStore.Sound)
    (h : persistIncluded env number s staged = some (q, t)) :
    Retains s t ∧ t.blobStore.Holds q.receiptPtr (Receipt.toBytes q.staged.outcome.receipt) := by
  obtain ⟨⟨indexPtr, s₁⟩, hindex, h⟩ := Option.bind_eq_some_iff.mp h
  obtain ⟨⟨receiptPtr, s₂⟩, hreceipt, h⟩ := Option.bind_eq_some_iff.mp h
  obtain ⟨⟨tracesPtr, s₃⟩, htraces, h⟩ := Option.bind_eq_some_iff.mp h
  obtain ⟨rfl, rfl⟩ := Prod.mk.inj (Option.some.inj h)
  obtain ⟨h₁, -⟩ := retains_storeBytes hs hindex
  obtain ⟨h₂, hholds⟩ := retains_storeBytes h₁.sound hreceipt
  have h₃ := retains_storeInternalTraces h₂.sound htraces
  exact ⟨h₁.trans (h₂.trans h₃), h₃.holds _ _ hholds⟩

theorem retains_persistAll {env : CallEnv} {number : Nat} {included : List StagedIncluded}
    {s t : StableState W} {persisted : List StagedPersist} (hs : s.blobStore.Sound)
    (h : persistAll env number included s = some (persisted, t)) :
    Retains s t ∧ ∀ q ∈ persisted,
      t.blobStore.Holds q.receiptPtr (Receipt.toBytes q.staged.outcome.receipt) := by
  induction included generalizing s persisted with
  | nil =>
      obtain ⟨rfl, rfl⟩ := Prod.mk.inj (Option.some.inj h)
      exact ⟨⟨hs, fun _ _ hold => hold⟩, by simp⟩
  | cons staged included ih =>
      obtain ⟨⟨q, s₁⟩, hone, h⟩ := Option.bind_eq_some_iff.mp h
      obtain ⟨⟨tail, s₂⟩, hrest, h⟩ := Option.bind_eq_some_iff.mp h
      obtain ⟨rfl, rfl⟩ := Prod.mk.inj (Option.some.inj h)
      obtain ⟨h₁, hq⟩ := retains_persistIncluded hs hone
      obtain ⟨h₂, htail⟩ := ih h₁.sound hrest
      refine ⟨h₁.trans h₂, ?_⟩
      intro r hr
      rcases List.mem_cons.mp hr with rfl | hr
      · exact h₂.holds _ _ hq
      · exact htail r hr

theorem retains_storeBlock {env : CallEnv} {s t : StableState W} {block : BlockData} {ptr : BlobPtr}
    (hs : s.blobStore.Sound) (h : storeBlock env s block = some (ptr, t)) : Retains s t := by
  obtain ⟨⟨q, u⟩, hstore, heq⟩ := Option.map_eq_some_iff.mp h
  obtain ⟨-, rfl⟩ := Prod.mk.inj heq
  obtain ⟨hsound, hholds⟩ := (retains_storeBytes hs hstore).1
  dsimp only
  split_ifs
  · exact ⟨hsound, hholds⟩
  · exact ⟨hsound, hholds⟩

theorem foldl_indexPendingFee_frame (baseFee : Nat) (ids : List TxId) (s : StableState W) :
    ∃ index keys, ids.foldl (indexPendingFee c baseFee) s =
      { s with pendingFeeIndex := index, pendingFeeKeyByTxId := keys } := by
  induction ids generalizing s with
  | nil => exact ⟨_, _, rfl⟩
  | cons id ids ih =>
      obtain ⟨index, keys, heq⟩ := ih (indexPendingFee c baseFee s id)
      rw [List.foldl_cons, heq, indexPendingFee]
      split
      · exact ⟨_, _, rfl⟩
      · exact ⟨_, _, rfl⟩

theorem rebuildPendingFee_frame (baseFee : Nat) (s : StableState W) :
    ∃ index keys, rebuildPendingFeeIndexForBaseFee c s baseFee =
      { s with pendingFeeIndex := index, pendingFeeKeyByTxId := keys } := by
  obtain ⟨index, keys, heq⟩ := foldl_indexPendingFee_frame (c := c) baseFee
    s.pendingBySenderNonce.values { s with pendingFeeIndex := .empty, pendingFeeKeyByTxId := .empty }
  exact ⟨index, keys, heq⟩

structure Recorded (s t : StableState W) (included : List StagedIncluded) : Prop where
  world : t.world = s.world
  receipt : ∀ staged ∈ included, ∃ ptr, t.receipts.get staged.txId = some ptr ∧
    t.blobStore.read ptr = .ok (Receipt.toBytes staged.outcome.receipt)

theorem recorded_commitBlock {evm : Evm W} {env : CallEnv} {ctx : BlockExecContext} {gasUsed : Nat}
    {block : BlockData} {drops : List QueuedDrop} {included : List StagedIncluded}
    {s t : StableState W} {p : Pool} (h : Consistent c counting s p)
    (hp : Pending p (drops.map QueuedDrop.txId ++ included.map StagedIncluded.txId))
    (hrun : commitBlock c evm env ctx gasUsed block drops included s = some t) :
    Recorded s t included := by
  obtain ⟨p₁, hdrops⟩ := retires_applyDrops evm h hp.left
  have hsame := sameRecords_applyDrops evm h hp.left
  have hpending := hp.right hdrops.kept
  obtain ⟨⟨persisted, s₂⟩, hpersist, hrun⟩ := Option.bind_eq_some_iff.mp hrun
  obtain ⟨⟨ptr, s₃⟩, hstore, hrun⟩ := Option.bind_eq_some_iff.mp hrun
  obtain ⟨hretained, hheld⟩ := retains_persistAll hdrops.consistent.archived.sound hpersist
  have hblock := retains_storeBlock hretained.sound hstore
  obtain ⟨hstaged, b₂, rfl, hk₂⟩ := persistAll_some hpersist
  obtain ⟨b₃, oldest, rfl, hk₃, -⟩ := storeBlock_some hstore
  have hpersisted : persisted.map (fun q => q.staged.txId) = included.map StagedIncluded.txId := by
    rw [← hstaged, List.map_map]
    rfl
  have h₃ : Consistent c counting
      { applyDrops c evm s drops with blobStore := b₃, oldestBlock := oldest } p₁ := by
    have hblobs := consistent_blobs hdrops.consistent (hk₂.trans hk₃)
    exact ⟨hblobs.indexed, hblobs.backed, hblobs.archived, hblobs.bounded, hblobs.counted⟩
  rw [← hpersisted] at hpending
  obtain ⟨hworld, hblobs, hreceipt, -⟩ := includes_includeAll evm ctx.blockNumber h₃ hpending
  obtain rfl := Option.some.inj hrun
  obtain ⟨index, keys, hfee⟩ := rebuildPendingFee_frame (c := c) (W := W) _ _
  rw [hfee]
  refine ⟨hworld.trans hsame.world, ?_⟩
  intro staged hmem
  rw [← hstaged] at hmem
  obtain ⟨q, hq, rfl⟩ := List.mem_map.mp hmem
  refine ⟨q.receiptPtr, hreceipt q hq, ?_⟩
  have hholds := hblock.holds _ _ (hheld q hq)
  refine BlobStore.read_of_holds ?_ ?_
  · rw [hblobs]
    exact hblock.sound
  · rw [hblobs]
    exact hholds

end Kasane.Chain
