import Kasane.Chain.Pool
import Kasane.Chain.Produce
import Mathlib.Logic.Relation

namespace Kasane.Chain

open BigEndian Codec Word Blob

variable {W : Type} {c : Crypto} {evm : Evm W} {who : Set Address}

-- the edits that queue upkeep is made of: none of them admits, includes or prunes a transaction,
-- and only these senders' nonces are looked up
inductive Tidy (c : Crypto) (evm : Evm W) (who : Set Address) : StableState W → StableState W → Prop
  | queues {s : StableState W} {queue : OrdMap ReadyKey TxId} {bySeq : OrdMap ReadySeqKey TxId}
      {keys : OrdMap TxId ReadyKey} {bySender : OrdMap SenderNonceKey TxId}
      {metas : OrdMap TxId SenderNonceKey} {current : OrdMap Address TxId}
      {minNonce : OrdMap Address Nat} {fees : OrdMap PendingFeeKey TxId}
      {feeKeys : OrdMap TxId PendingFeeKey} {counts : OrdMap CallerKey Nat}
      (fewer : ∀ id key, metas.get id = some key → s.pendingMetaByTxId.get id = some key) :
      Tidy c evm who s
        { s with
          readyQueue := queue
          readyBySeq := bySeq
          readyKeyByTxId := keys
          pendingBySenderNonce := bySender
          pendingMetaByTxId := metas
          pendingCurrentBySender := current
          pendingMinNonce := minNonce
          pendingFeeIndex := fees
          pendingFeeKeyByTxId := feeKeys
          principalPendingCount := counts }
  | purged (s : StableState W) (id : TxId) (code : DropCode) :
      Tidy c evm who s (markDroppedAndPurgePayload c s id code)
  | expected (s : StableState W) {sender : Address} (mem : sender ∈ who) :
      Tidy c evm who s (expectedNonceForSender evm s sender).2
  | suppressed (s : StableState W) (m : OrdMap Principal Nat) :
      Tidy c evm who s { s with decodeSuppressUntil := m }

abbrev Tidied (c : Crypto) (evm : Evm W) (who : Set Address) : StableState W → StableState W → Prop :=
  Relation.ReflTransGen (Tidy c evm who)

theorem Tidied.mono {who' : Set Address} {s t : StableState W} (h : Tidied c evm who s t)
    (hsub : who ⊆ who') : Tidied c evm who' s t := by
  induction h with
  | refl => exact .refl
  | @tail u v _ huv ih =>
      refine ih.tail ?_
      cases huv with
      | queues fewer => exact .queues fewer
      | purged id code => exact .purged u id code
      | expected mem => exact .expected u (hsub mem)
      | suppressed m => exact .suppressed u m

theorem markDropped_eq (s : StableState W) (id : TxId) (code : DropCode) :
    ∃ keys index hashes locs ring ringState, markDroppedAndPurgePayload c s id code =
      { s with
        pendingFeeKeyByTxId := keys
        pendingFeeIndex := index
        ethTxHashIndex := hashes
        txStore := s.txStore.remove id
        txLocs := locs
        droppedRing := ring
        droppedRingState := ringState } := by
  obtain ⟨keys, index, hfee⟩ := removePendingFeeIndexByTxId_eq s id
  obtain ⟨hashes, hhashes⟩ := removeEthTxHashIndexForTxId_eq c
    { s with pendingFeeKeyByTxId := keys, pendingFeeIndex := index } id
  rw [markDroppedAndPurgePayload, hfee, hhashes]
  dsimp only
  obtain ⟨locs, ring, ringState, hring, -⟩ := pushDroppedRing_eq
    (txLocsInsert
      { s with
        ethTxHashIndex := hashes
        txStore := s.txStore.remove id
        pendingFeeIndex := index
        pendingFeeKeyByTxId := keys } id (TxLoc.dropped code.toNat)) id
  rw [hring]
  exact ⟨_, _, _, _, _, _, rfl⟩

theorem expectedNonce_tidy {s t : StableState W} (h : Tidy c evm ∅ s t) :
    t.senderExpectedNonce = s.senderExpectedNonce := by
  cases h with
  | queues fewer => rfl
  | purged id code =>
      obtain ⟨keys, index, hashes, locs, ring, ringState, heq⟩ := markDropped_eq (c := c) s id code
      rw [heq]
  | expected mem => exact absurd mem (Set.notMem_empty _)
  | suppressed m => rfl

theorem expectedNonce_tidied {s t : StableState W} (h : Tidied c evm ∅ s t) :
    t.senderExpectedNonce = s.senderExpectedNonce := by
  induction h with
  | refl => rfl
  | tail _ ht ih => exact (expectedNonce_tidy ht).trans ih

theorem tidied_removePendingFeeIndex (s : StableState W) (id : TxId) :
    Tidied c evm who s (removePendingFeeIndexByTxId s id) := by
  obtain ⟨keys, index, heq⟩ := removePendingFeeIndexByTxId_eq s id
  rw [heq]
  exact .single (.queues fun _ _ h => h)

theorem tidied_decrementPrincipal (s : StableState W) (id : TxId) :
    Tidied c evm who s (decrementPrincipalPendingCountForTx c s id) := by
  obtain ⟨counts, heq⟩ := decrementPrincipalPendingCountForTx_eq c s id
  rw [heq]
  exact .single (.queues fun _ _ h => h)

theorem tidied_removeReady (s : StableState W) (id : TxId) :
    Tidied c evm who s (removeReadyByTxId s id) := by
  rw [removeReadyByTxId]
  split
  · exact .refl
  · exact .single (.queues fun _ _ h => h)

theorem tidied_finalizePending (s : StableState W) (sender : Address) (id : TxId) :
    Tidied c evm who s (finalizePendingForSender evm s sender id false) := by
  simp only [finalizePendingForSender, Bool.false_eq_true, if_false]
  split_ifs
  · exact .single (.queues fun _ _ h => h)
  · exact .refl

theorem get_of_remove {α β : Type} [LinearOrder α] {m : OrdMap α β} {a b : α} {x : β}
    (h : (m.remove a).get b = some x) : m.get b = some x := by
  rw [OrdMap.get_remove] at h
  split_ifs at h
  exact h

theorem tidied_unlinkPending (s : StableState W) (id : TxId) (key : SenderNonceKey) :
    Tidied c evm who s (unlinkPending c evm s id key false) := by
  have hremoved : Tidied c evm who s { s with
      pendingMetaByTxId := s.pendingMetaByTxId.remove id
      pendingBySenderNonce := s.pendingBySenderNonce.remove key } :=
    .single (.queues fun _ _ h => get_of_remove h)
  exact ((hremoved.trans (tidied_removePendingFeeIndex _ id)).trans
    (tidied_decrementPrincipal _ id)).trans (tidied_finalizePending _ key.sender id)

theorem tidied_advance (fuel : Nat) :
    (∀ (s : StableState W) id sender nonce,
      Tidied c evm who s (advanceSenderAfterTx c evm fuel s id sender nonce false)) ∧
    (∀ (s : StableState W) sender nonce,
      Tidied c evm who s (promoteNextPending c evm fuel s sender nonce)) := by
  induction fuel with
  | zero => exact ⟨fun _ _ _ _ => .refl, fun _ _ _ => .refl⟩
  | succ fuel ih =>
      obtain ⟨hadvance, hpromote⟩ := ih
      constructor
      · intro s id sender nonce
        rw [advanceSenderAfterTx]
        dsimp only
        refine (tidied_removeReady s id).trans ?_
        split
        · exact .refl
        · rename_i key _
          refine (tidied_unlinkPending _ id key).trans ?_
          split_ifs
          · exact hpromote _ _ _
          · exact .refl
      · intro s sender nonce
        rw [promoteNextPending]
        split
        · exact .single (.queues fun _ _ h => h)
        · rename_i nextNonce nextId _
          dsimp only
          have hmin : Tidied c evm who s
              { s with pendingMinNonce := s.pendingMinNonce.insert sender nextNonce } :=
            .single (.queues fun _ _ h => h)
          refine hmin.trans ?_
          split
          · exact .single (.queues fun _ _ h => h)
          · exact ((hadvance _ _ _ _).tail (.purged _ _ _)).trans (hpromote _ _ _)
          · exact ((hadvance _ _ _ _).tail (.purged _ _ _)).trans (hpromote _ _ _)

theorem tidied_advanceSender (s : StableState W) (id : TxId) (sender : Option Address)
    (nonce : Option Nat) : Tidied c evm who s (advanceSender c evm s id sender nonce false) :=
  (tidied_advance _).1 s id sender nonce

theorem idle_unlinkPending (s : StableState W) (id : TxId) (key : SenderNonceKey) :
    (unlinkPending c evm s id key false).pendingMetaByTxId.get id = none := by
  obtain ⟨keys, index, hfee⟩ := removePendingFeeIndexByTxId_eq
    { s with
      pendingMetaByTxId := s.pendingMetaByTxId.remove id
      pendingBySenderNonce := s.pendingBySenderNonce.remove key } id
  obtain ⟨counts, hcounts⟩ := decrementPrincipalPendingCountForTx_eq c
    { s with
      pendingMetaByTxId := s.pendingMetaByTxId.remove id
      pendingBySenderNonce := s.pendingBySenderNonce.remove key
      pendingFeeKeyByTxId := keys
      pendingFeeIndex := index } id
  have hremoved : (s.pendingMetaByTxId.remove id).get id = none :=
    (OrdMap.get_remove ..).trans (if_pos rfl)
  rw [unlinkPending, hfee, hcounts]
  simp only [finalizePendingForSender, Bool.false_eq_true, if_false]
  split_ifs
  · exact hremoved
  · exact hremoved

theorem fewer_tidied {s t : StableState W} (h : Tidied c evm who s t) :
    ∀ id key, t.pendingMetaByTxId.get id = some key → s.pendingMetaByTxId.get id = some key := by
  induction h with
  | refl => exact fun _ _ hkey => hkey
  | @tail u v _ huv ih =>
      intro id key hkey
      refine ih id key ?_
      cases huv with
      | queues fewer => exact fewer id key hkey
      | purged j code =>
          obtain ⟨keys, index, hashes, locs, ring, ringState, heq⟩ := markDropped_eq (c := c) u j code
          rwa [heq] at hkey
      | @expected sender _ =>
          obtain ⟨expected, nonces, heq⟩ := expectedNonceForSender_eq evm u sender
          rwa [heq] at hkey
      | suppressed m => exact hkey

-- an inclusion is upkeep around the one bump of its sender's nonce
structure Bumps (c : Crypto) (evm : Evm W) (s : StableState W) (id : TxId) (sender : Address)
    (u t : StableState W) : Prop where
  before : Tidied c evm ∅ s u
  idle : u.pendingMetaByTxId.get id = none
  after : Tidied c evm ∅ (bumpExpectedNonce evm u sender) t

theorem bumps_advanceSender (s : StableState W) (id : TxId) (sender : Address) (nonce : Nat) :
    ∃ u key, (s.pendingMetaByTxId.get id = some key ∨ key = ⟨sender, nonce⟩) ∧
      Bumps c evm s id key.sender u (advanceSender c evm s id (some sender) (some nonce) true) := by
  have hready := @tidied_removeReady W c evm ∅ s id
  have hkeys := fewer_tidied hready
  obtain ⟨key, hkey, hof⟩ : ∃ key,
      pendingKeyOf (removeReadyByTxId s id) id (some sender) (some nonce) = some key ∧
        (s.pendingMetaByTxId.get id = some key ∨ key = ⟨sender, nonce⟩) := by
    rw [pendingKeyOf]
    cases hmeta : (removeReadyByTxId s id).pendingMetaByTxId.get id with
    | none => exact ⟨_, rfl, .inr rfl⟩
    | some key => exact ⟨key, rfl, .inl (hkeys id key hmeta)⟩
  have hunlink : unlinkPending c evm (removeReadyByTxId s id) id key true =
      bumpExpectedNonce evm (unlinkPending c evm (removeReadyByTxId s id) id key false)
        key.sender := rfl
  refine ⟨unlinkPending c evm (removeReadyByTxId s id) id key false, key, hof,
    hready.trans (tidied_unlinkPending _ id key), idle_unlinkPending _ id key, ?_⟩
  rw [advanceSender, advanceFuel, advanceSenderAfterTx]
  dsimp only
  rw [hkey]
  dsimp only
  rw [hunlink]
  split_ifs
  · exact (tidied_advance _).2 _ _ _
  · exact .refl

theorem tidied_dropPending (s : StableState W) (id : TxId) (code : DropCode)
    (sender : Option Address) (nonce : Option Nat) :
    Tidied c evm who s (dropPending c evm s id code sender nonce) :=
  (tidied_advanceSender s id sender nonce).tail (.purged _ id code)

theorem tidied_applyDrops (s : StableState W) (drops : List QueuedDrop) :
    Tidied c evm who s (applyDrops c evm s drops) := by
  rw [applyDrops]
  induction drops generalizing s with
  | nil => exact .refl
  | cons d drops ih => exact (tidied_dropPending s d.txId d.code _ _).trans (ih _)

theorem tidied_replacePending (s : StableState W) (sender : Address) (old : TxId) :
    Tidied c evm who s (replacePendingForSender c s sender old) := by
  have hcounted := ((@tidied_removeReady W c evm who s old).trans
    (tidied_removePendingFeeIndex _ old)).trans (tidied_decrementPrincipal _ old)
  rw [replacePendingForSender]
  refine hcounted.trans ?_
  refine Relation.ReflTransGen.tail ?_ (.purged _ old .replaced)
  split
  · exact .single (.queues fun _ _ h => h)
  · exact .single (.queues fun _ _ h => get_of_remove h)

theorem tidied_applyNonce (s : StableState W) {sender : Address} (hsender : sender ∈ who)
    (nonce price baseFee : Nat) :
    Tidied c evm who s (applyNonceAndReplacement c evm s sender nonce price baseFee).2 := by
  refine (Relation.ReflTransGen.single (.expected s hsender)).trans ?_
  rw [applyNonceAndReplacement]
  rcases expectedNonceForSender evm s sender with ⟨expected, u⟩
  dsimp only
  split_ifs
  · exact .refl
  · exact .refl
  · split
    · exact .refl
    · split
      · exact .refl
      · exact .refl
      · exact .refl
      · exact .refl
      · rw [replaceCurrent]
        split
        · exact .refl
        · exact tidied_replacePending u sender _

theorem tidied_enforceCaps (s : StableState W) (sender : Address) (principal : Principal)
    (price : Nat) : Tidied c evm who s (enforcePendingCaps c evm s sender principal price).2 := by
  rw [enforcePendingCaps]
  split
  · exact .refl
  · exact .refl
  · exact .refl
  · exact .refl
  · rw [evictLowestFeePending]
    split
    · exact .refl
    · split_ifs
      · exact .refl
      · exact tidied_dropPending s _ .replaced none none

theorem get_expectedNonceForSender (evm : Evm W) (s : StableState W) (sender : Address) :
    (expectedNonceForSender evm s sender).2.senderExpectedNonce.get sender =
      some (expectedNonceForSender evm s sender).1 := by
  rw [expectedNonceForSender]
  split
  · rename_i value hvalue
    exact hvalue
  · exact (OrdMap.get_insert ..).trans (if_pos rfl)

theorem expected_applyNonce {s t : StableState W} {sender : Address} {nonce price baseFee : Nat}
    {replaced : Option TxId}
    (h : applyNonceAndReplacement c evm s sender nonce price baseFee = (.ok replaced, t)) :
    t.senderExpectedNonce.get sender = some nonce := by
  have hget := get_expectedNonceForSender evm s sender
  rw [applyNonceAndReplacement] at h
  generalize expectedNonceForSender evm s sender = looked at h hget
  obtain ⟨expected, u⟩ := looked
  dsimp only at h hget
  split_ifs at h with hlow hhigh
  · exact absurd (Prod.mk.inj h).1 (by simp)
  · exact absurd (Prod.mk.inj h).1 (by simp)
  · obtain rfl : nonce = expected := le_antisymm (not_lt.mp hhigh) (not_lt.mp hlow)
    split at h
    · exact absurd (Prod.mk.inj h).1 (by simp)
    · split at h
      · obtain rfl := (Prod.mk.inj h).2
        exact hget
      · exact absurd (Prod.mk.inj h).1 (by simp)
      · exact absurd (Prod.mk.inj h).1 (by simp)
      · exact absurd (Prod.mk.inj h).1 (by simp)
      · rw [replaceCurrent] at h
        split at h
        · exact absurd (Prod.mk.inj h).1 (by simp)
        · obtain rfl := (Prod.mk.inj h).2
          rw [@expectedNonce_tidied W c evm _ _ (tidied_replacePending u sender _)]
          exact hget

end Kasane.Chain
