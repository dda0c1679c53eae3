import Kasane.Chain.Submit
import Kasane.Lib.Index

namespace Kasane.Chain

open BigEndian Codec Word Blob

structure PoolEntry where
  key : SenderNonceKey
  ready : ReadyKey
  fee : PendingFeeKey

structure Pool where
  entry : TxId → Option PoolEntry
  ready_hash : ∀ {id : TxId} {e : PoolEntry}, entry id = some e → e.ready.txHash = id
  fee_hash : ∀ {id : TxId} {e : PoolEntry}, entry id = some e → e.fee.txHash = id
  one_per_sender : ∀ {i j : TxId} {e f : PoolEntry}, entry i = some e → entry j = some f →
    e.key.sender = f.key.sender → i = j

namespace Pool

def empty : Pool where
  entry := fun _ => none
  ready_hash := by simp
  fee_hash := by simp
  one_per_sender := by simp

theorem entry_update {p : Pool} {id j : TxId} {e : PoolEntry} {o : Option PoolEntry}
    (h : Function.update p.entry id o j = some e) : (j = id ∧ o = some e) ∨ p.entry j = some e := by
  rcases eq_or_ne j id with rfl | hne
  · rw [Function.update_self] at h
    exact Or.inl ⟨rfl, h⟩
  · rw [Function.update_of_ne hne] at h
    exact Or.inr h

theorem entry_erase {p : Pool} {id j : TxId} {e : PoolEntry}
    (h : Function.update p.entry id none j = some e) : p.entry j = some e := by
  rcases entry_update h with ⟨-, hnone⟩ | hj
  · exact absurd hnone (by simp)
  · exact hj

def erase (p : Pool) (id : TxId) : Pool where
  entry := Function.update p.entry id none
  ready_hash := fun h => p.ready_hash (entry_erase h)
  fee_hash := fun h => p.fee_hash (entry_erase h)
  one_per_sender := fun h h' => p.one_per_sender (entry_erase h) (entry_erase h')

theorem erase_self (p : Pool) (id : TxId) : (p.erase id).entry id = none :=
  Function.update_self ..

theorem erase_of_ne (p : Pool) {id j : TxId} (h : j ≠ id) : (p.erase id).entry j = p.entry j :=
  Function.update_of_ne h ..

structure Admits (p : Pool) (id : TxId) (e : PoolEntry) : Prop where
  fresh : p.entry id = none
  ready : e.ready.txHash = id
  fee : e.fee.txHash = id
  sender : ∀ j f, p.entry j = some f → f.key.sender ≠ e.key.sender

def insert (p : Pool) (id : TxId) (e : PoolEntry) (h : p.Admits id e) : Pool where
  entry := Function.update p.entry id (some e)
  ready_hash := by
    intro j f hj
    rcases entry_update hj with ⟨rfl, heq⟩ | hj
    · exact Option.some.inj heq ▸ h.ready
    · exact p.ready_hash hj
  fee_hash := by
    intro j f hj
    rcases entry_update hj with ⟨rfl, heq⟩ | hj
    · exact Option.some.inj heq ▸ h.fee
    · exact p.fee_hash hj
  one_per_sender := by
    intro i j f g hi hj hs
    rcases entry_update hi with ⟨hid, hf⟩ | hi
    · obtain rfl := Option.some.inj hf
      rcases entry_update hj with ⟨hjd, -⟩ | hj
      · exact hid.trans hjd.symm
      · exact absurd hs.symm (h.sender j g hj)
    · rcases entry_update hj with ⟨-, hg⟩ | hj
      · obtain rfl := Option.some.inj hg
        exact absurd hs (h.sender i f hi)
      · exact p.one_per_sender hi hj hs

def reprice (p : Pool) (price : TxId → Nat) : Pool where
  entry := fun id => (p.entry id).map (fun e => { e with fee := ⟨price id, id⟩ })
  ready_hash := by
    intro id e h
    obtain ⟨f, hf, rfl⟩ := Option.map_eq_some_iff.mp h
    have hready : f.ready.txHash = id := p.ready_hash hf
    exact hready
  fee_hash := by
    intro id e h
    obtain ⟨f, -, rfl⟩ := Option.map_eq_some_iff.mp h
    rfl
  one_per_sender := by
    intro i j e f hi hj hs
    obtain ⟨e₀, he, rfl⟩ := Option.map_eq_some_iff.mp hi
    obtain ⟨f₀, hf, rfl⟩ := Option.map_eq_some_iff.mp hj
    have hsame : e₀.key.sender = f₀.key.sender := hs
    exact p.one_per_sender he hf hsame

end Pool

variable {W : Type}

structure PendingMaps where
  bySenderNonce : OrdMap SenderNonceKey TxId
  metaByTxId : OrdMap TxId SenderNonceKey
  currentBySender : OrdMap Address TxId
  minNonce : OrdMap Address Nat
  readyQueue : OrdMap ReadyKey TxId
  readyBySeq : OrdMap ReadySeqKey TxId
  readyKeyByTxId : OrdMap TxId ReadyKey
  feeIndex : OrdMap PendingFeeKey TxId
  feeKeyByTxId : OrdMap TxId PendingFeeKey

def StableState.pendingMaps (s : StableState W) : PendingMaps where
  bySenderNonce := s.pendingBySenderNonce
  metaByTxId := s.pendingMetaByTxId
  currentBySender := s.pendingCurrentBySender
  minNonce := s.pendingMinNonce
  readyQueue := s.readyQueue
  readyBySeq := s.readyBySeq
  readyKeyByTxId := s.readyKeyByTxId
  feeIndex := s.pendingFeeIndex
  feeKeyByTxId := s.pendingFeeKeyByTxId

structure Indexed (m : PendingMaps) (p : Pool) : Prop where
  bySender : m.bySenderNonce.Indexes p.entry (fun _ e => e.key) (fun id _ => id)
  byTxId : m.metaByTxId.Indexes p.entry (fun id _ => id) (fun _ e => e.key)
  current : m.currentBySender.Indexes p.entry (fun _ e => e.key.sender) (fun id _ => id)
  minNonce : m.minNonce.Indexes p.entry (fun _ e => e.key.sender) (fun _ e => e.key.nonce)
  readyQueue : m.readyQueue.Indexes p.entry (fun _ e => e.ready) (fun id _ => id)
  readyBySeq : m.readyBySeq.Indexes p.entry (fun id e => ⟨e.ready.seq, id⟩) (fun id _ => id)
  readyKey : m.readyKeyByTxId.Indexes p.entry (fun id _ => id) (fun _ e => e.ready)
  feeIndex : m.feeIndex.Indexes p.entry (fun _ e => e.fee) (fun id _ => id)
  feeKey : m.feeKeyByTxId.Indexes p.entry (fun id _ => id) (fun _ e => e.fee)

theorem indexed_init (world : W) : Indexed (StableState.init world).pendingMaps .empty where
  bySender := .empty
  byTxId := .empty
  current := .empty
  minNonce := .empty
  readyQueue := .empty
  readyBySeq := .empty
  readyKey := .empty
  feeIndex := .empty
  feeKey := .empty

def PendingMaps.link (m : PendingMaps) (id : TxId) (e : PoolEntry) : PendingMaps where
  bySenderNonce := m.bySenderNonce.insert e.key id
  metaByTxId := m.metaByTxId.insert id e.key
  currentBySender := m.currentBySender.insert e.key.sender id
  minNonce := m.minNonce.insert e.key.sender e.key.nonce
  readyQueue := m.readyQueue.insert e.ready id
  readyBySeq := m.readyBySeq.insert ⟨e.ready.seq, id⟩ id
  readyKeyByTxId := m.readyKeyByTxId.insert id e.ready
  feeIndex := m.feeIndex.insert e.fee id
  feeKeyByTxId := m.feeKeyByTxId.insert id e.fee

theorem indexed_link {m : PendingMaps} {p : Pool} {id : TxId} {e : PoolEntry} (h : Indexed m p)
    (had : p.Admits id e) : Indexed (m.link id e) (p.insert id e had) := by
  have hne {j : TxId} {f : PoolEntry} (hj : p.entry j = some f) : j ≠ id := by
    rintro rfl
    exact absurd (had.fresh.symm.trans hj) (by simp)
  constructor
  · exact h.bySender.insert had.fresh
      (fun j f hj hk => had.sender j f hj (congrArg SenderNonceKey.sender hk))
  · exact h.byTxId.insert had.fresh (fun _ _ hj => hne hj)
  · exact h.current.insert had.fresh had.sender
  · exact h.minNonce.insert had.fresh had.sender
  · exact h.readyQueue.insert had.fresh (fun _ _ hj hk =>
      hne hj ((p.ready_hash hj).symm.trans ((congrArg ReadyKey.txHash hk).trans had.ready)))
  · exact h.readyBySeq.insert had.fresh (fun _ _ hj hk => hne hj (congrArg ReadySeqKey.txHash hk))
  · exact h.readyKey.insert had.fresh (fun _ _ hj => hne hj)
  · exact h.feeIndex.insert had.fresh (fun _ _ hj hk =>
      hne hj ((p.fee_hash hj).symm.trans ((congrArg PendingFeeKey.txHash hk).trans had.fee)))
  · exact h.feeKey.insert had.fresh (fun _ _ hj => hne hj)

def decrementedCounts (c : Crypto) (store : OrdMap TxId StoredTxBytes)
    (counts : OrdMap CallerKey Nat) (id : TxId) : OrdMap CallerKey Nat :=
  match (store.get id).map (StoredTx.tryFrom c) with
  | some (.ok stored) =>
      let key := CallerKey.fromPrincipalBytes stored.callerPrincipal
      match decrementCount ((counts.get key).getD 0) with
      | .remove => counts.remove key
      | .set next => counts.insert key next
  | _ => counts

theorem decrementPrincipal_counts (c : Crypto) (s : StableState W) (id : TxId) :
    decrementPrincipalPendingCountForTx c s id =
      { s with
        principalPendingCount := decrementedCounts c s.txStore s.principalPendingCount id } := by
  rw [decrementPrincipalPendingCountForTx, decrementedCounts, storedTx]
  rcases (s.txStore.get id).map (StoredTx.tryFrom c) with - | (e | stored)
  · rfl
  · rfl
  · dsimp only
    cases decrementCount _ with
    | remove => rfl
    | set next => rfl

def unlinked (c : Crypto) (s : StableState W) (id : TxId) (e : PoolEntry) : StableState W :=
  { s with
    readyKeyByTxId := s.readyKeyByTxId.remove id
    readyQueue := s.readyQueue.remove e.ready
    readyBySeq := s.readyBySeq.remove ⟨e.ready.seq, id⟩
    pendingMetaByTxId := s.pendingMetaByTxId.remove id
    pendingBySenderNonce := s.pendingBySenderNonce.remove e.key
    pendingFeeKeyByTxId := s.pendingFeeKeyByTxId.remove id
    pendingFeeIndex := s.pendingFeeIndex.remove e.fee
    principalPendingCount := decrementedCounts c s.txStore s.principalPendingCount id
    pendingCurrentBySender := s.pendingCurrentBySender.remove e.key.sender
    pendingMinNonce := s.pendingMinNonce.remove e.key.sender }

theorem indexed_unlinked {c : Crypto} {s : StableState W} {p : Pool} {id : TxId} {e : PoolEntry}
    (h : Indexed s.pendingMaps p) (hid : p.entry id = some e) : 
    Indexed (unlinked c s id e).pendingMaps (p.erase id) where
  bySender := h.bySender.remove hid
    (fun _ _ hj hk => p.one_per_sender hj hid (congrArg SenderNonceKey.sender hk))
  byTxId := h.byTxId.remove hid (fun _ _ _ hk => hk)
  current := h.current.remove hid (fun _ _ hj hk => p.one_per_sender hj hid hk)
  minNonce := h.minNonce.remove hid (fun _ _ hj hk => p.one_per_sender hj hid hk)
  readyQueue := h.readyQueue.remove hid
    (fun _ _ hj hk => (p.ready_hash hj).symm.trans ((congrArg ReadyKey.txHash hk).trans (p.ready_hash hid)))
  readyBySeq := h.readyBySeq.remove hid (fun _ _ _ hk => congrArg ReadySeqKey.txHash hk)
  readyKey := h.readyKey.remove hid (fun _ _ _ hk => hk)
  feeIndex := h.feeIndex.remove hid
    (fun _ _ hj hk => (p.fee_hash hj).symm.trans ((congrArg PendingFeeKey.txHash hk).trans (p.fee_hash hid)))
  feeKey := h.feeKey.remove hid (fun _ _ _ hk => hk)

theorem nextPendingForSender_none {s : StableState W} {sender : Address} (nonce : Nat)
    (h : ∀ key id, s.pendingBySenderNonce.get key = some id → key.sender ≠ sender) :
    nextPendingForSender s sender nonce = none := by
  rw [nextPendingForSender]
  split
  · rfl
  · rename_i key id hhead
    have hmem := (OrdMap.mem_rangeFrom.mp (List.mem_of_mem_head? hhead)).1
    rw [if_pos (h key id hmem)]

theorem bySender_unlinked {m : PendingMaps} {p : Pool} {id : TxId} {e : PoolEntry}
    (h : Indexed m p) (hid : p.entry id = some e) :
    ∀ key j, (m.bySenderNonce.remove e.key).get key = some j → key.sender ≠ e.key.sender := by
  intro key j hget hsender
  have hremoved := h.bySender.remove hid
    (fun _ _ hj hk => p.one_per_sender hj hid (congrArg SenderNonceKey.sender hk))
  obtain ⟨i, f, hi, rfl, rfl⟩ := (hremoved key j).mp hget
  obtain rfl : i = id := p.one_per_sender (Pool.entry_erase hi) hid hsender
  exact absurd ((p.erase_self i).symm.trans hi) (by simp)

-- the sequence index is written here, but not read
theorem advanceSender_eq {c : Crypto} (evm : Evm W) {s : StableState W} {p : Pool} {id : TxId}
    {e : PoolEntry} {seqs : OrdMap ReadySeqKey TxId}
    (h : Indexed { s.pendingMaps with readyBySeq := seqs } p) (hid : p.entry id = some e)
    (sender : Option Address) (nonce : Option Nat) (bump : Bool) :
    ∃ nonces, advanceSender c evm s id sender nonce bump =
      { unlinked c s id e with senderExpectedNonce := nonces } := by
  have hready : s.readyKeyByTxId.get id = some e.ready := h.readyKey.get_some hid
  have hmeta : s.pendingMetaByTxId.get id = some e.key := h.byTxId.get_some hid
  have hfee : s.pendingFeeKeyByTxId.get id = some e.fee := h.feeKey.get_some hid
  have hcurrent : s.pendingCurrentBySender.get e.key.sender = some id := h.current.get_some hid
  have hmin : s.pendingMinNonce.get e.key.sender = some e.key.nonce := h.minNonce.get_some hid
  have hnext := bySender_unlinked h hid
  rw [advanceSender, advanceFuel, advanceSenderAfterTx]
  simp only [removeReadyByTxId, hready, pendingKeyOf, hmeta, unlinkPending,
    removePendingFeeIndexByTxId, hfee, decrementPrincipal_counts, finalizePendingForSender,
    hcurrent, if_true]
  cases bump with
  | false =>
      simp only [Bool.false_eq_true, if_false, hmin, if_true]
      rw [promoteNextPending, nextPendingForSender_none _ hnext]
      exact ⟨s.senderExpectedNonce, rfl⟩
  | true =>
      simp only [if_true, bumpExpectedNonce, hmin]
      rw [promoteNextPending, nextPendingForSender_none _ hnext]
      exact ⟨_, rfl⟩

structure DropFrame (s t : StableState W) (id : TxId) : Prop where
  record : ∃ hashes locs ring ringState, t =
    { s with
      ethTxHashIndex := hashes
      txStore := s.txStore.remove id
      txLocs := locs
      droppedRing := ring
      droppedRingState := ringState }
  queued : ∀ j loc, j ≠ id → s.txLocs.get j = some loc → loc.kind = .queued →
    t.txLocs.get j = some loc

theorem pushDroppedRing_eq (s : StableState W) (id : TxId) :
    ∃ locs ring ringState, pushDroppedRing s id =
        { s with txLocs := locs, droppedRing := ring, droppedRingState := ringState } ∧
      ∀ j loc, s.txLocs.get j = some loc → loc.kind = .queued → locs.get j = some loc := by
  rw [pushDroppedRing]
  dsimp only
  split
  · exact ⟨_, _, _, rfl, fun _ _ h _ => h⟩
  · split
    · exact ⟨_, _, _, rfl, fun _ _ h _ => h⟩
    · rename_i evicted hget
      split
      · rename_i loc hloc
        split_ifs with hkind
        · refine ⟨s.txLocs.remove evicted, _, _, rfl, ?_⟩
          intro j locj hj hqueued
          rw [OrdMap.get_remove]
          split_ifs with heq
          · obtain ⟨hfound, -⟩ := Option.filter_eq_some_iff.mp hloc
            obtain rfl := Option.some.inj ((heq ▸ hj).symm.trans hfound)
            exact absurd (hqueued.symm.trans hkind) (by simp)
          · exact hj
        · exact ⟨_, _, _, rfl, fun _ _ h _ => h⟩
      · exact ⟨_, _, _, rfl, fun _ _ h _ => h⟩

theorem markDropped_frame {c : Crypto} {s : StableState W} {id : TxId} (code : DropCode)
    (h : s.pendingFeeKeyByTxId.get id = none) :
    DropFrame s (markDroppedAndPurgePayload c s id code) id := by
  obtain ⟨hashes, hhash⟩ := removeEthTxHashIndexForTxId_eq c s id
  obtain ⟨locs, ring, ringState, heq, hqueued⟩ := pushDroppedRing_eq
    (txLocsInsert { s with ethTxHashIndex := hashes, txStore := s.txStore.remove id } id
      (TxLoc.dropped code.toNat)) id
  have hmark : markDroppedAndPurgePayload c s id code =
      pushDroppedRing (txLocsInsert { s with ethTxHashIndex := hashes, txStore := s.txStore.remove id }
        id (TxLoc.dropped code.toNat)) id := by
    rw [markDroppedAndPurgePayload, removePendingFeeIndexByTxId, h]
    dsimp only
    rw [hhash]
  rw [hmark, heq]
  refine ⟨⟨_, _, _, _, rfl⟩, ?_⟩
  intro j loc hne hj hkind
  refine hqueued j loc ?_ hkind
  rw [txLocsInsert, OrdMap.get_insert, if_neg hne]
  exact hj

theorem dropPending_effect {c : Crypto} (evm : Evm W) {s : StableState W} {p : Pool} {id : TxId}
    {e : PoolEntry} {seqs : OrdMap ReadySeqKey TxId}
    (h : Indexed { s.pendingMaps with readyBySeq := seqs } p) (hid : p.entry id = some e)
    (code : DropCode) (sender : Option Address) (nonce : Option Nat) :
    ∃ nonces, DropFrame { unlinked c s id e with senderExpectedNonce := nonces }
      (dropPending c evm s id code sender nonce) id := by
  obtain ⟨nonces, heq⟩ := advanceSender_eq (c := c) evm h hid sender nonce false
  refine ⟨nonces, ?_⟩
  rw [dropPending, heq]
  apply markDropped_frame
  change (s.pendingFeeKeyByTxId.remove id).get id = none
  rw [OrdMap.get_remove, if_pos rfl]

theorem replacePending_effect {c : Crypto} {s : StableState W} {p : Pool} {id : TxId}
    {e : PoolEntry} (h : Indexed s.pendingMaps p) (hid : p.entry id = some e) :
    DropFrame (unlinked c s id e) (replacePendingForSender c s e.key.sender id) id := by
  have hready : s.readyKeyByTxId.get id = some e.ready := h.readyKey.get_some hid
  have hmeta : s.pendingMetaByTxId.get id = some e.key := h.byTxId.get_some hid
  have hfee : s.pendingFeeKeyByTxId.get id = some e.fee := h.feeKey.get_some hid
  have heq : replacePendingForSender c s e.key.sender id =
      markDroppedAndPurgePayload c (unlinked c s id e) id .replaced := by
    rw [replacePendingForSender]
    simp only [removeReadyByTxId, hready, removePendingFeeIndexByTxId, hfee,
      decrementPrincipal_counts, hmeta, unlinked]
  rw [heq]
  apply markDropped_frame
  change (s.pendingFeeKeyByTxId.remove id).get id = none
  rw [OrdMap.get_remove, if_pos rfl]

theorem expectedNonceForSender_eq (evm : Evm W) (s : StableState W) (sender : Address) :
    ∃ expected nonces, expectedNonceForSender evm s sender =
      (expected, { s with senderExpectedNonce := nonces }) := by
  rw [expectedNonceForSender]
  split
  · exact ⟨_, s.senderExpectedNonce, rfl⟩
  · exact ⟨_, _, rfl⟩

end Kasane.Chain
