import Kasane.Chain.Caps
import Kasane.Chain.OpClosed

namespace Kasane.Chain

open BigEndian Codec Word Blob

variable {W : Type} {c : Crypto} {evm : Evm W} {counting : Prop}

def feeKeyOf (c : Crypto) (store : OrdMap TxId StoredTxBytes) (baseFee : Nat) (id : TxId) :
    Option PendingFeeKey :=
  match (store.get id).map (StoredTx.tryFrom c) with
  | some (.ok tx) => some ⟨(tx.effectiveGasPrice baseFee).getD 0, id⟩
  | _ => none

def indexedFee (c : Crypto) (store : OrdMap TxId StoredTxBytes) (baseFee : Nat)
    (m : OrdMap PendingFeeKey TxId) (id : TxId) : OrdMap PendingFeeKey TxId :=
  match feeKeyOf c store baseFee id with
  | some key => m.insert key id
  | none => m

def keyedFee (c : Crypto) (store : OrdMap TxId StoredTxBytes) (baseFee : Nat)
    (m : OrdMap TxId PendingFeeKey) (id : TxId) : OrdMap TxId PendingFeeKey :=
  match feeKeyOf c store baseFee id with
  | some key => m.insert id key
  | none => m

def recountedIn (c : Crypto) (store : OrdMap TxId StoredTxBytes)
    (metas : OrdMap TxId SenderNonceKey) (counts : OrdMap CallerKey Nat) (id : TxId) :
    OrdMap CallerKey Nat :=
  if (metas.get id).isSome then recountedFrom c store counts id else counts

-- the four indexes as a rebuild computes them from the payloads and the other maps
def rebuilt (c : Crypto) (s : StableState W) : StableState W :=
  { s with
    principalPendingCount := s.pendingBySenderNonce.values.foldl
      (recountedIn c s.txStore s.pendingMetaByTxId) .empty
    pendingFeeIndex := s.pendingBySenderNonce.values.foldl
      (indexedFee c s.txStore s.chainState.baseFee) .empty
    pendingFeeKeyByTxId := s.pendingBySenderNonce.values.foldl
      (keyedFee c s.txStore s.chainState.baseFee) .empty
    readyBySeq := s.readyKeyByTxId.entries.foldl
      (fun m e => m.insert ⟨e.2.seq, e.1⟩ e.1) .empty }

theorem recountPending_decodes {s : StableState W} {id : TxId}
    (h : ∀ e, storedTx c s id ≠ some (.error e)) :
    recountPending c evm s id =
      { s with
        principalPendingCount :=
          recountedIn c s.txStore s.pendingMetaByTxId s.principalPendingCount id } := by
  rw [recountPending, recountedIn, recountedFrom, storedPrincipal]
  rw [storedTx] at h ⊢
  generalize (s.txStore.get id).map (StoredTx.tryFrom c) = found at h ⊢
  rcases found with - | (e | tx)
  · simp
  · exact absurd rfl (h e)
  · dsimp only
    split_ifs
    · rfl
    · rfl

theorem values_nodup {m : PendingMaps} {p : Pool} (h : Indexed m p) :
    m.bySenderNonce.values.Nodup := by
  refine List.Nodup.map_on ?_ m.bySenderNonce.entries_nodup
  rintro ⟨k, i⟩ hi ⟨l, j⟩ hj (rfl : i = j)
  obtain ⟨a, e, he, rfl, ha⟩ := (h.bySender k i).mp (OrdMap.mem_entries.mp hi)
  obtain ⟨b, f, hf, rfl, hb⟩ := (h.bySender l i).mp (OrdMap.mem_entries.mp hj)
  obtain rfl : a = b := ha.trans hb.symm
  rw [Option.some.inj (he.symm.trans hf)]

theorem foldl_recountedFrom_congr {store store' : OrdMap TxId StoredTxBytes} {ids : List TxId}
    (h : ∀ id ∈ ids, store'.get id = store.get id) (counts : OrdMap CallerKey Nat) :
    ids.foldl (recountedFrom c store') counts = ids.foldl (recountedFrom c store) counts := by
  induction ids generalizing counts with
  | nil => rfl
  | cons id ids ih =>
      obtain ⟨hid, hrest⟩ := List.forall_mem_cons.mp h
      rw [List.foldl_cons, List.foldl_cons, ih hrest, recountedFrom, recountedFrom, storedPrincipal,
        storedPrincipal, hid]

-- a recount under way: the pending transactions before these have been counted or dropped
structure Recounting (c : Crypto) (kept rest : List TxId) (s : StableState W) : Prop where
  values : s.pendingBySenderNonce.values = kept ++ rest
  decodes : ∀ id ∈ kept, ∀ e, storedTx c s id ≠ some (.error e)
  counts : s.principalPendingCount = kept.foldl (recountedFrom c s.txStore) .empty
  bySeq : s.readyBySeq = .empty
  agrees : ∃ p seqs, Indexed { s.pendingMaps with readyBySeq := seqs } p

theorem Recounting.counted {kept rest : List TxId} {s : StableState W} {id : TxId}
    (h : Recounting c kept (id :: rest) s) (hid : ∀ e, storedTx c s id ≠ some (.error e)) :
    Recounting c (kept ++ [id]) rest (recountPending c evm s id) := by
  obtain ⟨p, seqs, hp⟩ := h.agrees
  have hmem : id ∈ s.pendingBySenderNonce.values := by
    rw [h.values]
    exact List.mem_append_right _ List.mem_cons_self
  obtain ⟨e, he⟩ := (mem_pendingIds hp).mp hmem
  have hmeta : s.pendingMetaByTxId.get id = some e.key := hp.byTxId.get_some he
  rw [recountPending_decodes hid, recountedIn, hmeta]
  refine ⟨?_, ?_, ?_, h.bySeq, ⟨p, seqs, hp⟩⟩
  · rw [List.append_assoc]
    exact h.values
  · intro j hj
    rcases List.mem_append.mp hj with hkept | hnew
    · exact h.decodes j hkept
    · obtain rfl := List.mem_singleton.mp hnew
      exact hid
  · rw [List.foldl_append, ← h.counts]
    rfl

theorem Recounting.dropped {kept rest : List TxId} {s : StableState W} {id : TxId}
    (h : Recounting c kept (id :: rest) s) {e : StoredTxError}
    (hid : storedTx c s id = some (.error e)) :
    Recounting c kept rest (recountPending c evm s id) := by
  obtain ⟨p, seqs, hp⟩ := h.agrees
  have hnodup := values_nodup hp
  have hmem : id ∈ s.pendingBySenderNonce.values := by
    rw [h.values]
    exact List.mem_append_right _ List.mem_cons_self
  obtain ⟨f, hf⟩ := (mem_pendingIds hp).mp hmem
  have hkey : s.pendingBySenderNonce.get f.key = some id := hp.bySender.get_some hf
  have hnone : storedPrincipal c s.txStore id = none := by
    rw [storedTx] at hid
    rw [storedPrincipal, hid]
  have hcounts : decrementedCounts c s.txStore s.principalPendingCount id =
      s.principalPendingCount := decrementedCounts_of_none hnone
  have hother : ∀ j ∈ kept, (s.txStore.remove id).get j = s.txStore.get j := by
    intro j hj
    rw [OrdMap.get_remove, if_neg]
    rintro rfl
    have hsplit : (kept ++ j :: rest).Nodup := h.values ▸ hnodup
    exact (List.nodup_append.mp hsplit).2.2 j hj j List.mem_cons_self rfl
  obtain ⟨nonces, ⟨hashes, locs, ring, ringState, heq⟩, -⟩ :=
    dropPending_effect (c := c) evm hp hf .decode none none
  have hstep : recountPending c evm s id = dropPending c evm s id .decode none none := by
    rw [recountPending, hid]
  rw [hstep, heq]
  refine ⟨?_, ?_, ?_, ?_, p.erase id, seqs.remove ⟨f.ready.seq, id⟩, ?_⟩
  · exact OrdMap.values_remove hkey h.values hnodup
  · intro j hj e'
    change ((s.txStore.remove id).get j).map (StoredTx.tryFrom c) ≠ _
    rw [hother j hj]
    exact h.decodes j hj e'
  · have hkept : kept.foldl (recountedFrom c (s.txStore.remove id)) .empty =
        s.principalPendingCount := by
      rw [foldl_recountedFrom_congr hother, h.counts]
    exact hcounts.trans hkept.symm
  · change s.readyBySeq.remove _ = _
    rw [h.bySeq]
    exact OrdMap.remove_of_get_none rfl
  · exact @indexed_unlinked W c { s with readyBySeq := seqs } p id f hp hf

-- the counters name principals, and none of them is zero
def Tallied (counts : OrdMap CallerKey Nat) : Prop :=
  ∀ key n, counts.get key = some n → 0 < n ∧ ∃ who, key = CallerKey.fromPrincipalBytes who

theorem tallied_empty : Tallied .empty := fun _ _ h => absurd h (by simp)

theorem Tallied.insert {counts : OrdMap CallerKey Nat} (h : Tallied counts) (who : Principal)
    {n : Nat} (hn : 0 < n) : Tallied (counts.insert (CallerKey.fromPrincipalBytes who) n) := by
  intro key m hget
  rw [OrdMap.get_insert] at hget
  split_ifs at hget with hkey
  · obtain rfl := Option.some.inj hget
    exact ⟨hn, who, hkey⟩
  · exact h key m hget

theorem Tallied.remove {counts : OrdMap CallerKey Nat} (h : Tallied counts) (key : CallerKey) :
    Tallied (counts.remove key) :=
  fun other m hget => h other m (get_of_remove hget)

theorem Tallied.recountedFrom {counts : OrdMap CallerKey Nat} (h : Tallied counts)
    (store : OrdMap TxId StoredTxBytes) (id : TxId) :
    Tallied (recountedFrom c store counts id) := by
  rw [Chain.recountedFrom]
  split
  · exact h.insert _ (lt_min (Nat.succ_pos _) (by decide))
  · exact h

theorem Tallied.unique {counts counts' : OrdMap CallerKey Nat} (h : Tallied counts)
    (h' : Tallied counts') (hsame : ∀ who,
      (counts.get (CallerKey.fromPrincipalBytes who)).getD 0 =
        (counts'.get (CallerKey.fromPrincipalBytes who)).getD 0) : counts = counts' := by
  refine OrdMap.ext_get (fun key => ?_)
  cases hget : counts.get key with
  | none =>
      cases hget' : counts'.get key with
      | none => rfl
      | some n =>
          obtain ⟨hn, who, rfl⟩ := h' key n hget'
          have heq := hsame who
          rw [hget, hget'] at heq
          exact absurd heq (Nat.ne_of_lt hn)
  | some n =>
      obtain ⟨hn, who, rfl⟩ := h key n hget
      have heq := hsame who
      cases hget' : counts'.get (CallerKey.fromPrincipalBytes who) with
      | none =>
          rw [hget, hget'] at heq
          exact absurd heq.symm (Nat.ne_of_lt hn)
      | some m =>
          rw [hget, hget'] at heq
          exact congrArg some heq

end Kasane.Chain
