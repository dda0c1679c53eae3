import Kasane.Chain.Archive
import Kasane.Chain.PrincipalCount
import Kasane.Chain.Produce

namespace Kasane.Chain

open BigEndian Codec Word Blob

variable {W : Type} {c : Crypto} {counting : Prop}

structure Consistent (c : Crypto) (counting : Prop) (s : StableState W) (p : Pool) : Prop where
  indexed : Indexed s.pendingMaps p
  backed : Backed c s.txStore s.txLocs s.seenTx p
  archived : Archived s.blobStore s.blocks s.seenTx p
  bounded : s.pendingBySenderNonce.len ≤ maxPendingGlobal
  counted : counting → Counts c s.txStore s.pendingBySenderNonce s.principalPendingCount

theorem consistent_init (world : W) : Consistent c counting (StableState.init world) .empty where
  indexed := indexed_init world
  backed := ⟨fun h => absurd h (by simp [Pool.empty]), fun h => absurd h (by simp [Pool.empty]),
    fun h => absurd h (by simp [Pool.empty])⟩
  archived := by
    have hnone (n : Nat) : blockAt BlobStore.empty .empty n = none := rfl
    refine ⟨BlobStore.sound_empty, ?_, ?_, ?_, ?_⟩
    · intro n ptr h
      exact absurd h (by simp [StableState.init])
    · intro n block id h
      exact absurd ((hnone n).symm.trans h) (by simp)
    · intro n block id h
      exact absurd ((hnone n).symm.trans h) (by simp)
    · intro n m b b' id _ h
      exact absurd ((hnone n).symm.trans h) (by simp)
  bounded := Nat.zero_le _
  counted := fun _ _ => rfl

theorem consistent_unlinked {s : StableState W} {p : Pool} {id : TxId} {e : PoolEntry}
    (h : Consistent c counting s p) (hid : p.entry id = some e) :
    Consistent c counting (unlinked c s id e) (p.erase id) where
  indexed := indexed_unlinked h.indexed hid
  backed := h.backed.mono (fun hj => ⟨_, Pool.entry_erase hj⟩) (fun _ => rfl) (fun _ hl _ => hl)
    (fun _ => rfl)
  archived := by
    refine h.archived.mono (.refl _) (fun hptr => hptr) (fun _ _ => rfl) ?_
    intro n block j _ _ hj
    rcases eq_or_ne j id with rfl | hne
    · exact p.erase_self j
    · rw [p.erase_of_ne hne]
      exact hj
  bounded := by
    have hget : s.pendingBySenderNonce.get e.key = some id := h.indexed.bySender.get_some hid
    have hlen := OrdMap.len_remove_of_get_some hget
    have hle := h.bounded
    change (s.pendingBySenderNonce.remove e.key).len ≤ maxPendingGlobal
    omega
  counted := by
    intro hcounting
    obtain ⟨bytes, tx, hget, htx⟩ := h.backed.stored hid
    exact (h.counted hcounting).remove (h.indexed.bySender.get_some hid)
      (storedPrincipal_of_ok hget htx)

theorem consistent_dropped {s t : StableState W} {p : Pool} {id : TxId}
    (h : Consistent c counting s p) (hid : p.entry id = none) (hframe : DropFrame s t id) :
    Consistent c counting t p := by
  have hother {j : TxId} {e : PoolEntry} (hj : p.entry j = some e) : j ≠ id := by
    rintro rfl
    exact absurd (hid.symm.trans hj) (by simp)
  obtain ⟨⟨hashes, locs, ring, ringState, rfl⟩, hqueued⟩ := hframe
  refine ⟨h.indexed, ?_, h.archived, h.bounded, ?_⟩
  · refine h.backed.mono (fun hj => ⟨_, hj⟩) ?_ ?_ (fun _ => rfl)
    · intro j e hj
      rw [OrdMap.get_remove, if_neg (hother hj)]
    · intro j e loc hj hloc hkind
      exact hqueued j loc (hother hj) hloc hkind
  · intro hcounting
    refine (h.counted hcounting).congr ?_
    intro key j hget
    obtain ⟨i, e, hi, -, rfl⟩ := (h.indexed.bySender key j).mp hget
    rw [OrdMap.get_remove, if_neg (hother hi)]

theorem consistent_dropPending {evm : Evm W} {s : StableState W} {p : Pool} {id : TxId}
    {e : PoolEntry} (h : Consistent c counting s p) (hid : p.entry id = some e) (code : DropCode)
    (sender : Option Address) (nonce : Option Nat) :
    Consistent c counting (dropPending c evm s id code sender nonce) (p.erase id) := by
  obtain ⟨nonces, hframe⟩ := dropPending_effect (c := c) evm h.indexed hid code sender nonce
  have hun := consistent_unlinked h hid
  have hrenamed : Consistent c counting { unlinked c s id e with senderExpectedNonce := nonces }
      (p.erase id) :=
    ⟨hun.indexed, hun.backed, hun.archived, hun.bounded, hun.counted⟩
  exact consistent_dropped hrenamed (p.erase_self id) hframe

theorem consistent_replacePending {s : StableState W} {p : Pool} {id : TxId} {e : PoolEntry}
    (h : Consistent c counting s p) (hid : p.entry id = some e) :
    Consistent c counting (replacePendingForSender c s e.key.sender id) (p.erase id) :=
  consistent_dropped (consistent_unlinked h hid) (p.erase_self id)
    (replacePending_effect h.indexed hid)

def queuedEntry (sender : Address) (nonce price : Nat) (envelope : StoredTxBytes) (seq : Nat) :
    PoolEntry where
  key := ⟨sender, nonce⟩
  ready := ReadyKey.new envelope.maxFeePerGas
    (if envelope.isDynamicFee then envelope.maxPriorityFeePerGas else 0) seq envelope.txId
  fee := ⟨price, envelope.txId⟩

theorem enqueuePending_eq {s : StableState W} {p : Pool} {sender : Address}
    (h : Indexed s.pendingMaps p) (hsender : ∀ j f, p.entry j = some f → f.key.sender ≠ sender)
    (nonce price : Nat) (envelope : StoredTxBytes) :
    ∃ hashes queueMeta chainState, enqueuePending c s sender nonce price envelope =
      { s with
        seenTx := s.seenTx.insert envelope.txId 1
        txStore := s.txStore.insert envelope.txId envelope
        ethTxHashIndex := hashes
        queueMeta := queueMeta
        chainState := chainState
        txLocs := s.txLocs.insert envelope.txId (TxLoc.queued s.queueMeta.tail)
        pendingCurrentBySender := s.pendingCurrentBySender.insert sender envelope.txId
        pendingMinNonce := s.pendingMinNonce.insert sender nonce
        pendingBySenderNonce := s.pendingBySenderNonce.insert ⟨sender, nonce⟩ envelope.txId
        pendingMetaByTxId := s.pendingMetaByTxId.insert envelope.txId ⟨sender, nonce⟩
        principalPendingCount := s.principalPendingCount.insert
          (CallerKey.fromPrincipalBytes envelope.callerPrincipal) (saturatingAdd u32Max
            ((s.principalPendingCount.get
              (CallerKey.fromPrincipalBytes envelope.callerPrincipal)).getD 0) 1)
        pendingFeeIndex := s.pendingFeeIndex.insert ⟨price, envelope.txId⟩ envelope.txId
        pendingFeeKeyByTxId := s.pendingFeeKeyByTxId.insert envelope.txId ⟨price, envelope.txId⟩
        readyQueue := s.readyQueue.insert
          (queuedEntry sender nonce price envelope s.queueMeta.tail).ready envelope.txId
        readyBySeq := s.readyBySeq.insert ⟨s.queueMeta.tail, envelope.txId⟩ envelope.txId
        readyKeyByTxId := s.readyKeyByTxId.insert envelope.txId
          (queuedEntry sender nonce price envelope s.queueMeta.tail).ready } := by
  have hmin : s.pendingMinNonce.get sender = none := h.minNonce.get_none hsender
  have hhash (t : StableState W) : ∃ hashes, (if envelope.kind = .ethSigned then
      insertEthTxHashIndexForEnvelope c t envelope.txId envelope else t) =
      { t with ethTxHashIndex := hashes } := by
    rw [insertEthTxHashIndexForEnvelope]
    split_ifs
    · split
      · split_ifs
        · exact ⟨_, rfl⟩
        · exact ⟨_, rfl⟩
      · exact ⟨_, rfl⟩
    · exact ⟨_, rfl⟩
  rw [enqueuePending]
  obtain ⟨hashes, hhashes⟩ := hhash { s with
    seenTx := s.seenTx.insert envelope.txId 1
    txStore := s.txStore.insert envelope.txId envelope }
  rw [hhashes]
  refine ⟨hashes, s.queueMeta.push.2, { s.chainState with nextQueueSeq := s.queueMeta.push.2.tail }, ?_⟩
  simp only [promoteIfNextNonce, trackPendingIndexesOnInsert, txLocsInsert, QueueMeta.push, hmin,
    classifyPromote, insertReady, queuedEntry]

theorem callerPrincipal_tryFrom {value : StoredTxBytes} {tx : StoredTx}
    (h : StoredTx.tryFrom c value = .ok tx) : tx.callerPrincipal = value.callerPrincipal := by
  rw [StoredTx.tryFrom] at h
  split_ifs at h
  all_goals exact (Except.ok.inj h) ▸ rfl

theorem admits_queuedEntry {s : StableState W} {p : Pool} {sender : Address} {nonce price seq : Nat}
    {envelope : StoredTxBytes} (h : Consistent c counting s p)
    (hfresh : s.seenTx.get envelope.txId = none)
    (hsender : ∀ j f, p.entry j = some f → f.key.sender ≠ sender) :
    p.Admits envelope.txId (queuedEntry sender nonce price envelope seq) where
  fresh := by
    cases hentry : p.entry envelope.txId with
    | none => rfl
    | some e =>
        obtain ⟨mark, hmark⟩ := h.backed.marked hentry
        exact absurd (hfresh.symm.trans hmark) (by simp)
  ready := rfl
  fee := rfl
  sender := hsender

theorem consistent_enqueuePending {s : StableState W} {p : Pool} {sender : Address}
    {nonce price : Nat} {envelope : StoredTxBytes} {tx : StoredTx} (h : Consistent c counting s p)
    (hfresh : s.seenTx.get envelope.txId = none)
    (hsender : ∀ j f, p.entry j = some f → f.key.sender ≠ sender)
    (hlen : s.pendingBySenderNonce.len < maxPendingGlobal)
    (hok : StoredTx.tryFrom c envelope = .ok tx) :
    ∃ p', Consistent c counting (enqueuePending c s sender nonce price envelope) p' := by
  have had : p.Admits envelope.txId (queuedEntry sender nonce price envelope s.queueMeta.tail) :=
    admits_queuedEntry h hfresh hsender
  obtain ⟨hashes, queueMeta, chainState, heq⟩ :=
    enqueuePending_eq (c := c) h.indexed hsender nonce price envelope
  have hne {j : TxId} {f : PoolEntry} (hj : p.entry j = some f) : j ≠ envelope.txId := by
    rintro rfl
    exact absurd (had.fresh.symm.trans hj) (by simp)
  have hkey : s.pendingBySenderNonce.get ⟨sender, nonce⟩ = none :=
    h.indexed.bySender.get_none
      (fun j f hj hk => hsender j f hj (congrArg SenderNonceKey.sender hk))
  refine ⟨p.insert envelope.txId (queuedEntry sender nonce price envelope s.queueMeta.tail) had, ?_⟩
  rw [heq]
  refine ⟨indexed_link h.indexed had, ?_, ?_, ?_, ?_⟩
  · constructor
    · intro j e hj
      rcases Pool.entry_update hj with ⟨rfl, -⟩ | hold
      · exact ⟨envelope, tx, by rw [OrdMap.get_insert, if_pos rfl], hok⟩
      · rw [OrdMap.get_insert, if_neg (hne hold)]
        exact h.backed.stored hold
    · intro j e hj
      rcases Pool.entry_update hj with ⟨rfl, -⟩ | hold
      · exact ⟨_, by rw [OrdMap.get_insert, if_pos rfl], rfl⟩
      · rw [OrdMap.get_insert, if_neg (hne hold)]
        exact h.backed.queued hold
    · intro j e hj
      rcases Pool.entry_update hj with ⟨rfl, -⟩ | hold
      · exact ⟨1, by rw [OrdMap.get_insert, if_pos rfl]⟩
      · rw [OrdMap.get_insert, if_neg (hne hold)]
        exact h.backed.marked hold
  · have hblock {n : Nat} {block : BlockData} {id : TxId}
        (hb : blockAt s.blobStore s.blocks n = some block) (hid : id ∈ block.txIds) :
        id ≠ envelope.txId := by
      rintro rfl
      obtain ⟨mark, hmark⟩ := h.archived.marked hb hid
      exact absurd (hfresh.symm.trans hmark) (by simp)
    refine h.archived.mono (.refl _) (fun hptr => hptr) ?_ ?_
    · intro n block id hb hid
      rw [OrdMap.get_insert, if_neg (hblock hb hid)]
    · intro n block id hb hid hold
      exact (Function.update_of_ne (hblock hb hid) ..).trans hold
  · change (s.pendingBySenderNonce.insert ⟨sender, nonce⟩ envelope.txId).len ≤ maxPendingGlobal
    rw [OrdMap.len_insert_of_get_none _ hkey]
    exact hlen
  · intro hcounting
    have hsame : Counts c (s.txStore.insert envelope.txId envelope) s.pendingBySenderNonce
        s.principalPendingCount := by
      refine (h.counted hcounting).congr ?_
      intro key id hget
      obtain ⟨j, e, hj, -, rfl⟩ := (h.indexed.bySender key id).mp hget
      rw [OrdMap.get_insert, if_neg (hne hj)]
    have hwho : storedPrincipal c (s.txStore.insert envelope.txId envelope) envelope.txId =
        some envelope.callerPrincipal := by
      rw [← callerPrincipal_tryFrom hok]
      exact storedPrincipal_of_ok (by rw [OrdMap.get_insert, if_pos rfl]) hok
    exact hsame.insert hkey (lt_of_lt_of_le hlen (by decide)) hwho

theorem len_erase {s t : StableState W} {p : Pool} {id : TxId} {e : PoolEntry}
    (h : Consistent c counting s p) (hid : p.entry id = some e)
    (ht : t.pendingBySenderNonce = s.pendingBySenderNonce.remove e.key) :
    t.pendingBySenderNonce.len < maxPendingGlobal := by
  have hget : s.pendingBySenderNonce.get e.key = some id := h.indexed.bySender.get_some hid
  have hlen := OrdMap.len_remove_of_get_some hget
  have hle := h.bounded
  rw [ht]
  omega

structure Replaced (c : Crypto) (counting : Prop) (sender : Address) (t : StableState W)
    (seen : OrdMap TxId UInt8) (r : Except ChainError (Option TxId)) (p : Pool) : Prop where
  consistent : Consistent c counting t p
  seenTx : t.seenTx = seen
  vacant : ∀ replaced, r = .ok replaced → ∀ j f, p.entry j = some f → f.key.sender ≠ sender
  len : ∀ old, r = .ok (some old) → t.pendingBySenderNonce.len < maxPendingGlobal

theorem replaced_of_error {s : StableState W} {p : Pool} {sender : Address}
    (h : Consistent c counting s p) (e : ChainError) :
    Replaced c counting sender s s.seenTx (.error e) p :=
  ⟨h, rfl, fun _ hok => absurd hok (by simp), fun _ hok => absurd hok (by simp)⟩

theorem consistent_replaceCurrent {s t : StableState W} {p : Pool} {sender : Address}
    {r : Except ChainError (Option TxId)} (h : Consistent c counting s p)
    (hrun : replaceCurrent c s sender = (r, t)) :
    ∃ p', Replaced c counting sender t s.seenTx r p' := by
  rw [replaceCurrent] at hrun
  split at hrun
  · obtain ⟨rfl, rfl⟩ := Prod.mk.inj hrun
    exact ⟨p, replaced_of_error h _⟩
  · rename_i old hcurrent
    obtain ⟨rfl, rfl⟩ := Prod.mk.inj hrun
    obtain ⟨id, e, hid, rfl, rfl⟩ := (h.indexed.current sender old).mp hcurrent
    obtain ⟨⟨hashes, locs, ring, ringState, heq⟩, -⟩ := replacePending_effect (c := c) h.indexed hid
    refine ⟨p.erase id, consistent_replacePending h hid, ?_, ?_, ?_⟩
    · change (replacePendingForSender c s e.key.sender id).seenTx = s.seenTx
      rw [heq]
      rfl
    · intro replaced _ j f hj hsender
      obtain rfl := p.one_per_sender (Pool.entry_erase hj) hid hsender
      exact absurd ((p.erase_self j).symm.trans hj) (by simp)
    · intro old _
      refine len_erase h hid ?_
      change (replacePendingForSender c s e.key.sender id).pendingBySenderNonce = _
      rw [heq]
      rfl

theorem current_none_of_accept {s : StableState W} {sender : Address}
    {expected nonce price baseFee : Nat} {old : Option Nat}
    (hprice : pendingPriceForSender c s sender baseFee = .ok old)
    (hclass : classifyNonce expected nonce old price = .accept) :
    s.pendingCurrentBySender.get sender = none := by
  rw [pendingPriceForSender] at hprice
  split at hprice
  · assumption
  · split at hprice
    · obtain rfl := Except.ok.inj hprice
      rw [classifyNonce] at hclass
      split_ifs at hclass
    · exact absurd hprice (by simp)

theorem consistent_applyNonce {evm : Evm W} {s t : StableState W} {p : Pool} {sender : Address}
    {nonce price baseFee : Nat} {r : Except ChainError (Option TxId)} (h : Consistent c counting s p)
    (hrun : applyNonceAndReplacement c evm s sender nonce price baseFee = (r, t)) :
    ∃ p', Replaced c counting sender t s.seenTx r p' := by
  obtain ⟨expected, nonces, hexp⟩ := expectedNonceForSender_eq evm s sender
  have hs : Consistent c counting { s with senderExpectedNonce := nonces } p :=
    ⟨h.indexed, h.backed, h.archived, h.bounded, h.counted⟩
  have herror (e : ChainError) (he : ((.error e, { s with senderExpectedNonce := nonces }) :
      Except ChainError (Option TxId) × StableState W) = (r, t)) :
      ∃ p', Replaced c counting sender t s.seenTx r p' := by
    obtain ⟨rfl, rfl⟩ := Prod.mk.inj he
    exact ⟨p, replaced_of_error hs e⟩
  simp only [applyNonceAndReplacement, hexp] at hrun
  split_ifs at hrun
  · exact herror _ hrun
  · exact herror _ hrun
  · split at hrun
    · exact herror _ hrun
    · rename_i old hprice
      split at hrun
      · rename_i hclass
        obtain ⟨rfl, rfl⟩ := Prod.mk.inj hrun
        refine ⟨p, hs, rfl, ?_, fun _ hok => absurd hok (by simp)⟩
        intro _ _ j f hj hsender
        have hcurrent : s.pendingCurrentBySender.get f.key.sender = some j :=
          h.indexed.current.get_some hj
        have hnone := current_none_of_accept hprice hclass
        exact absurd (hnone.symm.trans (hsender ▸ hcurrent)) (by simp)
      · exact herror _ hrun
      · exact herror _ hrun
      · exact herror _ hrun
      · obtain ⟨p', hp'⟩ := consistent_replaceCurrent hs hrun
        exact ⟨p', hp'⟩

theorem consistent_evictLowest {evm : Evm W} {s t : StableState W} {p : Pool} {price : Nat}
    {r : Except ChainError Unit} (h : Consistent c counting s p)
    (hrun : evictLowestFeePending c evm s price = (r, t)) :
    ∃ p', Consistent c counting t p' ∧ t.seenTx = s.seenTx ∧
      (∀ j f, p'.entry j = some f → p.entry j = some f) ∧
      (r = .ok () → t.pendingBySenderNonce.len < maxPendingGlobal) := by
  rw [evictLowestFeePending] at hrun
  split at hrun
  · obtain ⟨rfl, rfl⟩ := Prod.mk.inj hrun
    exact ⟨p, h, rfl, fun _ _ hj => hj, fun hok => absurd hok (by simp)⟩
  · rename_i key evicted hfirst
    split_ifs at hrun
    · obtain ⟨rfl, rfl⟩ := Prod.mk.inj hrun
      exact ⟨p, h, rfl, fun _ _ hj => hj, fun hok => absurd hok (by simp)⟩
    · obtain ⟨rfl, rfl⟩ := Prod.mk.inj hrun
      obtain ⟨id, e, hid, -, rfl⟩ := (h.indexed.feeIndex key evicted).mp (OrdMap.first_get hfirst)
      obtain ⟨nonces, ⟨hashes, locs, ring, ringState, heq⟩, -⟩ :=
        dropPending_effect (c := c) evm h.indexed hid .replaced none none
      refine ⟨p.erase id, consistent_dropPending h hid _ _ _, ?_, fun _ _ => Pool.entry_erase, ?_⟩
      · change (dropPending c evm s id .replaced none none).seenTx = s.seenTx
        rw [heq]
        rfl
      · intro _
        refine len_erase h hid ?_
        change (dropPending c evm s id .replaced none none).pendingBySenderNonce = _
        rw [heq]
        rfl

theorem consistent_enforceCaps {evm : Evm W} {s t : StableState W} {p : Pool} {sender : Address}
    {principal : Principal} {price : Nat} {r : Except ChainError Unit}
    (h : Consistent c counting s p)
    (hrun : enforcePendingCaps c evm s sender principal price = (r, t)) :
    ∃ p', Consistent c counting t p' ∧ t.seenTx = s.seenTx ∧
      (∀ j f, p'.entry j = some f → p.entry j = some f) ∧
      (r = .ok () → t.pendingBySenderNonce.len < maxPendingGlobal) := by
  have herror {e : ChainError} (he : ((.error e, s) : Except ChainError Unit × StableState W) = (r, t)) :
      ∃ p', Consistent c counting t p' ∧ t.seenTx = s.seenTx ∧
        (∀ j f, p'.entry j = some f → p.entry j = some f) ∧
        (r = .ok () → t.pendingBySenderNonce.len < maxPendingGlobal) := by
    obtain ⟨rfl, rfl⟩ := Prod.mk.inj he
    exact ⟨p, h, rfl, fun _ _ hj => hj, fun hok => absurd hok (by simp)⟩
  rw [enforcePendingCaps] at hrun
  split at hrun
  · rename_i hclass
    obtain ⟨rfl, rfl⟩ := Prod.mk.inj hrun
    refine ⟨p, h, rfl, fun _ _ hj => hj, fun _ => ?_⟩
    unfold classifyPendingCaps at hclass
    split_ifs at hclass with h₁ h₂ h₃
    · exact h₃
    · split at hclass
      · split_ifs at hclass
      · exact absurd hclass (by simp)
  · exact herror hrun
  · exact herror hrun
  · exact herror hrun
  · exact consistent_evictLowest h hrun

theorem consistent_admitPending {evm : Evm W} {s : StableState W} {p : Pool} {sender : Address}
    {nonce price baseFee : Nat} {envelope : StoredTxBytes} {tx : StoredTx}
    (h : Consistent c counting s p) (hfresh : s.seenTx.get envelope.txId = none)
    (hok : StoredTx.tryFrom c envelope = .ok tx) :
    ∃ p', Consistent c counting (admitPending c evm s sender nonce price baseFee envelope).2 p' := by
  rw [admitPending]
  rcases happly : applyNonceAndReplacement c evm s sender nonce price baseFee with ⟨r, s₁⟩
  obtain ⟨p₁, h₁⟩ := consistent_applyNonce h happly
  cases r with
  | error e => exact ⟨p₁, h₁.consistent⟩
  | ok replaced =>
      dsimp only
      rcases hcaps : (if replaced.isNone = true then
        enforcePendingCaps c evm s₁ sender envelope.callerPrincipal price else (.ok (), s₁))
        with ⟨r, s₂⟩
      have h₂ : ∃ p₂, Consistent c counting s₂ p₂ ∧ s₂.seenTx = s₁.seenTx ∧
          (∀ j f, p₂.entry j = some f → p₁.entry j = some f) ∧
          (r = .ok () → s₂.pendingBySenderNonce.len < maxPendingGlobal) := by
        cases replaced with
        | none => exact consistent_enforceCaps h₁.consistent hcaps
        | some old =>
            obtain ⟨rfl, rfl⟩ := Prod.mk.inj hcaps
            exact ⟨p₁, h₁.consistent, rfl, fun _ _ hj => hj, fun _ => h₁.len old rfl⟩
      obtain ⟨p₂, hcons, hseen, hsub, hlen⟩ := h₂
      cases r with
      | error e => exact ⟨p₂, hcons⟩
      | ok a =>
          dsimp only
          split_ifs
          · exact ⟨p₂, hcons⟩
          · refine consistent_enqueuePending hcons ?_ ?_ (hlen rfl) hok
            · rw [hseen, h₁.seenTx]
              exact hfresh
            · intro j f hj
              exact h₁.vacant replaced rfl j f (hsub j f hj)

theorem isPrincipalDecodeSuppressed_eq (s : StableState W) (who : Principal) (now : Nat) :
    ∃ suppressed m, isPrincipalDecodeSuppressed s who now =
      (suppressed, { s with decodeSuppressUntil := m }) := by
  rw [isPrincipalDecodeSuppressed]
  split_ifs
  · exact ⟨_, s.decodeSuppressUntil, rfl⟩
  · exact ⟨_, _, rfl⟩

theorem tryFrom_ethSigned {raw : Bytes} (hraw : raw ≠ []) (who : Principal) (maxFee maxPriority : Nat)
    (isDynamicFee : Bool) :
    ∃ tx, StoredTx.tryFrom c ⟨storedTxVersion, storedTxId c .ethSigned raw none none none, .ethSigned,
      raw, none, .empty, who, maxFee, maxPriority, isDynamicFee⟩ = .ok tx := by
  rw [StoredTx.tryFrom]
  simp [hraw, Principal.empty]

theorem raw_ne_nil_of_decode {raw : Bytes} {caller : Address} {tx : TxEnv}
    (h : decodeTx c .ethSigned caller raw = some tx) : raw ≠ [] := by
  rintro rfl
  exact absurd h (by simp [decodeTx, decodeEthRawTx])

theorem consistent_submitTx {evm : Evm W} {s : StableState W} {p : Pool} (now : Nat) (raw : Bytes)
    (who : Principal) (h : Consistent c counting s p) :
    ∃ p', Consistent c counting (submitTx c evm now .ethSigned raw who s).2 p' := by
  obtain ⟨suppressed, m, hsup⟩ := isPrincipalDecodeSuppressed_eq s who now
  have hs : Consistent c counting { s with decodeSuppressUntil := m } p :=
    ⟨h.indexed, h.backed, h.archived, h.bounded, h.counted⟩
  rw [submitTx, hsup]
  cases suppressed with
  | true => exact ⟨p, hs⟩
  | false =>
      dsimp only
      split_ifs with hsize hseen
      · exact ⟨p, hs⟩
      · exact ⟨p, hs⟩
      · split
        · exact ⟨p, hs⟩
        · rename_i tx hdecode
          split
          · exact ⟨p, hs⟩
          · split
            · exact ⟨p, hs⟩
            · obtain ⟨stored, hok⟩ := tryFrom_ethSigned (c := c) (raw_ne_nil_of_decode hdecode) who
                (feeFieldsFromTxEnv tx).1 (feeFieldsFromTxEnv tx).2.1 (feeFieldsFromTxEnv tx).2.2
              exact consistent_admitPending hs (by simpa using hseen) hok

theorem tryFrom_icSynthetic {raw : Bytes} {callerEvm : Address} {canisterId who : Principal}
    (hraw : raw ≠ []) (hcanister : canisterId.bytes ≠ []) (hwho : who.bytes ≠ [])
    (hderive : c.deriveEvmAddress who.bytes = some callerEvm) (maxFee maxPriority : Nat)
    (isDynamicFee : Bool) :
    ∃ tx, StoredTx.tryFrom c ⟨storedTxVersion, storedTxId c .icSynthetic raw (some callerEvm)
      (some canisterId.bytes) (some who.bytes), .icSynthetic, raw, some callerEvm, canisterId, who,
      maxFee, maxPriority, isDynamicFee⟩ = .ok tx := by
  rw [StoredTx.tryFrom]
  simp [hraw, hcanister, hwho, hderive]

theorem encodeIcSyntheticInput_ne_nil (tx : IcSyntheticTxInput) : encodeIcSyntheticInput tx ≠ [] := by
  have hdest : encodeIcSyntheticTo tx.dest ≠ [] := by
    cases h : tx.dest with
    | none => simp [encodeIcSyntheticTo]
    | some dest => simp [encodeIcSyntheticTo]
  rw [encodeIcSyntheticInput]
  exact List.append_ne_nil_of_left_ne_nil hdest _

theorem consistent_submitIcTxInput {evm : Evm W} {s : StableState W} {p : Pool} (now : Nat)
    {who canisterId : Principal} (hwho : who.bytes ≠ []) (hcanister : canisterId.bytes ≠ [])
    (tx : IcSyntheticTxInput) (h : Consistent c counting s p) :
    ∃ p', Consistent c counting (submitIcTxInput c evm now who canisterId tx s).2 p' := by
  obtain ⟨suppressed, m, hsup⟩ := isPrincipalDecodeSuppressed_eq s who now
  have hs : Consistent c counting { s with decodeSuppressUntil := m } p :=
    ⟨h.indexed, h.backed, h.archived, h.bounded, h.counted⟩
  rw [submitIcTxInput, hsup]
  cases suppressed with
  | true => exact ⟨p, hs⟩
  | false =>
      dsimp only
      split
      · exact ⟨p, hs⟩
      · split
        · exact ⟨p, hs⟩
        · rename_i callerEvm hderive
          split_ifs with hseen
          · exact ⟨p, hs⟩
          · exact ⟨p, hs⟩
          · split
            · exact ⟨p, hs⟩
            · obtain ⟨stored, hok⟩ := tryFrom_icSynthetic (encodeIcSyntheticInput_ne_nil tx)
                hcanister hwho hderive tx.maxFeePerGas.toNat tx.maxPriorityFeePerGas.toNat true
              exact consistent_admitPending hs (by simpa using hseen) hok

end Kasane.Chain
