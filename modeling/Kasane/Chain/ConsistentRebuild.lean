import Kasane.Chain.Consistent

namespace Kasane.Chain

open BigEndian Codec Word Blob

variable {W : Type} {c : Crypto} {counting : Prop}

def repricedFee (c : Crypto) (store : OrdMap TxId StoredTxBytes) (baseFee : Nat) (id : TxId) : Nat :=
  match (store.get id).map (StoredTx.tryFrom c) with
  | some (.ok tx) => (tx.effectiveGasPrice baseFee).getD 0
  | _ => 0

theorem foldl_indexPendingFee {s : StableState W} {ids : List TxId} (baseFee : Nat)
    (h : ∀ id ∈ ids, ∃ bytes tx, s.txStore.get id = some bytes ∧ StoredTx.tryFrom c bytes = .ok tx) :
    ids.foldl (indexPendingFee c baseFee) s =
      { s with
        pendingFeeIndex := ids.foldl
          (fun m id => m.insert ⟨repricedFee c s.txStore baseFee id, id⟩ id) s.pendingFeeIndex
        pendingFeeKeyByTxId := ids.foldl
          (fun m id => m.insert id ⟨repricedFee c s.txStore baseFee id, id⟩) s.pendingFeeKeyByTxId } := by
  induction ids generalizing s with
  | nil => rfl
  | cons id ids ih =>
      obtain ⟨⟨bytes, tx, hget, htx⟩, hrest⟩ := List.forall_mem_cons.mp h
      have hfee : repricedFee c s.txStore baseFee id = (tx.effectiveGasPrice baseFee).getD 0 := by
        rw [repricedFee, hget, Option.map_some, htx]
      have hstep : indexPendingFee c baseFee s id =
          { s with
            pendingFeeIndex := s.pendingFeeIndex.insert ⟨repricedFee c s.txStore baseFee id, id⟩ id
            pendingFeeKeyByTxId :=
              s.pendingFeeKeyByTxId.insert id ⟨repricedFee c s.txStore baseFee id, id⟩ } := by
        rw [indexPendingFee, storedTx, hget, Option.map_some, htx, hfee]
      rw [List.foldl_cons, hstep]
      refine (ih ?_).trans rfl
      exact hrest

theorem mem_pendingIds {m : PendingMaps} {p : Pool} (h : Indexed m p) {id : TxId} :
    id ∈ m.bySenderNonce.values ↔ ∃ e, p.entry id = some e := by
  rw [OrdMap.mem_values]
  constructor
  · rintro ⟨key, hget⟩
    obtain ⟨j, e, hj, -, rfl⟩ := (h.bySender key id).mp hget
    exact ⟨e, hj⟩
  · rintro ⟨e, he⟩
    exact ⟨e.key, h.bySender.get_some he⟩

def PendingMaps.refee (m : PendingMaps) (price : TxId → Nat) (ids : List TxId) : PendingMaps :=
  { m with
    feeIndex := ids.foldl (fun m id => m.insert ⟨price id, id⟩ id) .empty
    feeKeyByTxId := ids.foldl (fun m id => m.insert id ⟨price id, id⟩) .empty }

theorem indexed_refee {m : PendingMaps} {p : Pool} (h : Indexed m p) (price : TxId → Nat) :
    Indexed (m.refee price m.bySenderNonce.values) (p.reprice price) where
  bySender := h.bySender.map _ (fun _ _ => rfl) (fun _ _ => rfl)
  byTxId := h.byTxId.map _ (fun _ _ => rfl) (fun _ _ => rfl)
  current := h.current.map _ (fun _ _ => rfl) (fun _ _ => rfl)
  minNonce := h.minNonce.map _ (fun _ _ => rfl) (fun _ _ => rfl)
  readyQueue := h.readyQueue.map _ (fun _ _ => rfl) (fun _ _ => rfl)
  readyBySeq := h.readyBySeq.map _ (fun _ _ => rfl) (fun _ _ => rfl)
  readyKey := h.readyKey.map _ (fun _ _ => rfl) (fun _ _ => rfl)
  feeIndex := by
    intro key txId
    have hget := OrdMap.get_foldl_insert (fun id => (⟨price id, id⟩ : PendingFeeKey)) (fun id => id)
      m.bySenderNonce.values (fun a _ b _ hab => congrArg PendingFeeKey.txHash hab) .empty key txId
    rw [PendingMaps.refee, hget]
    simp only [OrdMap.get_empty, reduceCtorEq, and_false, or_false]
    constructor
    · rintro ⟨j, hj, rfl, rfl⟩
      obtain ⟨e, he⟩ := (mem_pendingIds h).mp hj
      exact ⟨j, _, Option.map_eq_some_iff.mpr ⟨e, he, rfl⟩, rfl, rfl⟩
    · rintro ⟨j, f, hj, rfl, rfl⟩
      obtain ⟨e, he, rfl⟩ := Option.map_eq_some_iff.mp hj
      exact ⟨j, (mem_pendingIds h).mpr ⟨e, he⟩, rfl, rfl⟩
  feeKey := by
    intro txId key
    have hget := OrdMap.get_foldl_insert (fun id => id) (fun id => (⟨price id, id⟩ : PendingFeeKey))
      m.bySenderNonce.values (fun a _ b _ hab => by rw [show a = b from hab]) .empty txId key
    rw [PendingMaps.refee, hget]
    simp only [OrdMap.get_empty, reduceCtorEq, and_false, or_false]
    constructor
    · rintro ⟨j, hj, rfl, rfl⟩
      obtain ⟨e, he⟩ := (mem_pendingIds h).mp hj
      exact ⟨j, _, Option.map_eq_some_iff.mpr ⟨e, he, rfl⟩, rfl, rfl⟩
    · rintro ⟨j, f, hj, rfl, rfl⟩
      obtain ⟨e, he, rfl⟩ := Option.map_eq_some_iff.mp hj
      exact ⟨j, (mem_pendingIds h).mpr ⟨e, he⟩, rfl, rfl⟩

theorem entry_reprice {p : Pool} {price : TxId → Nat} {id : TxId} {e : PoolEntry}
    (h : (p.reprice price).entry id = some e) : ∃ f, p.entry id = some f := by
  obtain ⟨f, hf, -⟩ := Option.map_eq_some_iff.mp h
  exact ⟨f, hf⟩

theorem stored_of_pending {s : StableState W} {p : Pool} (h : Consistent c counting s p) {id : TxId}
    (hid : id ∈ s.pendingBySenderNonce.values) :
    ∃ bytes tx, s.txStore.get id = some bytes ∧ StoredTx.tryFrom c bytes = .ok tx := by
  obtain ⟨e, he⟩ := (mem_pendingIds h.indexed).mp hid
  exact h.backed.stored he

theorem rebuildPendingFee_eq {s : StableState W} (baseFee : Nat)
    (h : ∀ id ∈ s.pendingBySenderNonce.values, ∃ bytes tx, s.txStore.get id = some bytes ∧
      StoredTx.tryFrom c bytes = .ok tx) :
    rebuildPendingFeeIndexForBaseFee c s baseFee =
      { s with
        pendingFeeIndex := s.pendingBySenderNonce.values.foldl
          (fun m id => m.insert ⟨repricedFee c s.txStore baseFee id, id⟩ id) .empty
        pendingFeeKeyByTxId := s.pendingBySenderNonce.values.foldl
          (fun m id => m.insert id ⟨repricedFee c s.txStore baseFee id, id⟩) .empty } := by
  rw [rebuildPendingFeeIndexForBaseFee]
  exact foldl_indexPendingFee baseFee h

theorem consistent_refee {s : StableState W} {p : Pool} (h : Consistent c counting s p)
    (price : TxId → Nat) :
    ∃ p', Consistent c counting
      { s with
        pendingFeeIndex := s.pendingBySenderNonce.values.foldl
          (fun m id => m.insert ⟨price id, id⟩ id) .empty
        pendingFeeKeyByTxId := s.pendingBySenderNonce.values.foldl
          (fun m id => m.insert id ⟨price id, id⟩) .empty } p' := by
  refine ⟨p.reprice price, indexed_refee h.indexed price, ?_, ?_, h.bounded, h.counted⟩
  · exact h.backed.mono entry_reprice (fun _ => rfl) (fun _ hl _ => hl) (fun _ => rfl)
  · refine h.archived.mono (.refl _) (fun hptr => hptr) (fun _ _ => rfl) ?_
    intro n block id _ _ hid
    exact Option.map_eq_none_iff.mpr hid

theorem consistent_rebuildPendingFee {s : StableState W} {p : Pool} (h : Consistent c counting s p)
    (baseFee : Nat) :
    ∃ p', Consistent c counting (rebuildPendingFeeIndexForBaseFee c s baseFee) p' := by
  rw [rebuildPendingFee_eq baseFee (fun _ hid => stored_of_pending h hid)]
  exact consistent_refee h _

def recountedFrom (c : Crypto) (store : OrdMap TxId StoredTxBytes) (counts : OrdMap CallerKey Nat)
    (id : TxId) : OrdMap CallerKey Nat :=
  match storedPrincipal c store id with
  | some who => counts.insert (CallerKey.fromPrincipalBytes who)
      (saturatingAdd u32Max ((counts.get (CallerKey.fromPrincipalBytes who)).getD 0) 1)
  | none => counts

theorem foldl_recountPending {evm : Evm W} {s : StableState W} {ids : List TxId}
    (h : ∀ id ∈ ids, ∃ bytes tx, s.txStore.get id = some bytes ∧ StoredTx.tryFrom c bytes = .ok tx)
    (hmeta : ∀ id ∈ ids, (s.pendingMetaByTxId.get id).isSome) :
    ids.foldl (recountPending c evm) s =
      { s with
        principalPendingCount := ids.foldl (recountedFrom c s.txStore) s.principalPendingCount } := by
  induction ids generalizing s with
  | nil => rfl
  | cons id ids ih =>
      obtain ⟨⟨bytes, tx, hget, htx⟩, hrest⟩ := List.forall_mem_cons.mp h
      obtain ⟨hsome, hmetas⟩ := List.forall_mem_cons.mp hmeta
      have hstep : recountPending c evm s id =
          { s with principalPendingCount := recountedFrom c s.txStore s.principalPendingCount id } := by
        rw [recountPending, storedTx, recountedFrom, storedPrincipal_of_ok hget htx, hget,
          Option.map_some, htx]
        dsimp only
        rw [if_pos hsome]
      rw [List.foldl_cons, hstep]
      refine (ih ?_ ?_).trans rfl
      · exact hrest
      · exact hmetas

theorem get_recountedFrom {store : OrdMap TxId StoredTxBytes} {counts : OrdMap CallerKey Nat}
    {id : TxId} {who : Principal}
    (hlt : (counts.get (CallerKey.fromPrincipalBytes who)).getD 0 < u32Max) :
    ((recountedFrom c store counts id).get (CallerKey.fromPrincipalBytes who)).getD 0 =
      (counts.get (CallerKey.fromPrincipalBytes who)).getD 0 +
        (if storedPrincipal c store id = some who then 1 else 0) := by
  rw [recountedFrom]
  cases storedPrincipal c store id with
  | none => simp
  | some other =>
      dsimp only
      have hkey : CallerKey.fromPrincipalBytes who = CallerKey.fromPrincipalBytes other ↔
          who = other := fromPrincipalBytes_injective.eq_iff
      rw [OrdMap.get_insert]
      rcases eq_or_ne who other with rfl | hne
      · rw [if_pos rfl, if_pos rfl, Option.getD_some, saturatingAdd, min_eq_left hlt]
      · rw [if_neg (fun heq => hne (hkey.mp heq)), if_neg (fun heq => hne (Option.some.inj heq).symm)]
        rfl

theorem get_foldl_recountedFrom {store : OrdMap TxId StoredTxBytes} {counts : OrdMap CallerKey Nat}
    {ids : List TxId} {who : Principal}
    (hle : (counts.get (CallerKey.fromPrincipalBytes who)).getD 0 + ids.length ≤ u32Max) :
    ((ids.foldl (recountedFrom c store) counts).get (CallerKey.fromPrincipalBytes who)).getD 0 =
      (counts.get (CallerKey.fromPrincipalBytes who)).getD 0 +
        ids.countP (fun id => decide (storedPrincipal c store id = some who)) := by
  induction ids generalizing counts with
  | nil => rfl
  | cons id ids ih =>
      rw [List.length_cons] at hle
      have hlt : (counts.get (CallerKey.fromPrincipalBytes who)).getD 0 < u32Max := by omega
      have hstep : ((recountedFrom c store counts id).get (CallerKey.fromPrincipalBytes who)).getD 0 =
          _ := get_recountedFrom hlt
      have hone : (if storedPrincipal c store id = some who then 1 else 0) ≤ 1 := by
        split_ifs <;> omega
      rw [List.foldl_cons, ih (by omega), hstep, List.countP_cons]
      simp only [decide_eq_true_eq]
      omega

theorem counts_recounted {store : OrdMap TxId StoredTxBytes} {pending : OrdMap SenderNonceKey TxId}
    (hlen : pending.len ≤ maxPendingGlobal) :
    Counts c store pending (pending.values.foldl (recountedFrom c store) .empty) := by
  intro who
  have hle : pending.values.length ≤ u32Max := by
    rw [OrdMap.values, List.length_map]
    exact le_trans hlen (by decide)
  rw [get_foldl_recountedFrom (by simpa using hle), pendingCount, OrdMap.values, List.countP_map]
  simp [Function.comp_def]

theorem foldl_indexReadySeq (s : StableState W) (l : List (TxId × ReadyKey)) :
    l.foldl indexReadySeq s =
      { s with
        readyBySeq := l.foldl (fun m e => m.insert ⟨e.2.seq, e.1⟩ e.1) s.readyBySeq } := by
  induction l generalizing s with
  | nil => rfl
  | cons e l ih =>
      rw [List.foldl_cons, ih]
      rfl

theorem indexes_readyBySeq {m : PendingMaps} {p : Pool} (h : Indexed m p) :
    (m.readyKeyByTxId.entries.foldl (fun m e => m.insert ⟨e.2.seq, e.1⟩ e.1)
      (.empty : OrdMap ReadySeqKey TxId)).Indexes p.entry
      (fun id e => ⟨e.ready.seq, id⟩) (fun id _ => id) := by
  intro key txId
  have hget := OrdMap.get_foldl_insert (fun e : TxId × ReadyKey => (⟨e.2.seq, e.1⟩ : ReadySeqKey))
    Prod.fst m.readyKeyByTxId.entries (fun a _ b _ hab => congrArg ReadySeqKey.txHash hab) .empty
    key txId
  rw [hget]
  simp only [OrdMap.get_empty, reduceCtorEq, and_false, or_false]
  constructor
  · rintro ⟨⟨id, ready⟩, hm, rfl, rfl⟩
    obtain ⟨j, e, hj, rfl, rfl⟩ := (h.readyKey id ready).mp (OrdMap.mem_entries.mp hm)
    exact ⟨j, e, hj, rfl, rfl⟩
  · rintro ⟨j, e, hj, rfl, rfl⟩
    exact ⟨(j, e.ready), OrdMap.mem_entries.mpr (h.readyKey.get_some hj), rfl, rfl⟩

def recounted (c : Crypto) (s : StableState W) : StableState W :=
  { s with
    principalPendingCount := s.pendingBySenderNonce.values.foldl (recountedFrom c s.txStore) .empty
    readyBySeq := .empty }

theorem recount_eq {evm : Evm W} {s : StableState W} {p : Pool} (h : Consistent c counting s p) :
    s.pendingBySenderNonce.values.foldl (recountPending c evm)
      { s with principalPendingCount := .empty, readyBySeq := .empty } = recounted c s := by
  refine foldl_recountPending ?_ ?_
  · exact fun _ hid => stored_of_pending h hid
  · intro id hid
    obtain ⟨e, he⟩ := (mem_pendingIds h.indexed).mp hid
    have hget : s.pendingMetaByTxId.get id = some e.key := h.indexed.byTxId.get_some he
    exact Option.isSome_iff_exists.mpr ⟨e.key, hget⟩

theorem consistent_rebuildRuntime (evm : Evm W) {s : StableState W} {p : Pool}
    (h : Consistent c counting s p) :
    ∃ p', Consistent c True (rebuildPendingRuntimeIndexes c evm s) p' := by
  have hfee := rebuildPendingFee_eq (c := c) (s := recounted c s)
    (recounted c s).chainState.baseFee (fun _ hid => stored_of_pending h hid)
  have hs : Consistent c True
      { recounted c s with
        readyBySeq := s.readyKeyByTxId.entries.foldl
          (fun m e => m.insert ⟨e.2.seq, e.1⟩ e.1) .empty } p :=
    ⟨{ h.indexed with readyBySeq := indexes_readyBySeq h.indexed }, h.backed, h.archived, h.bounded,
      fun _ => counts_recounted h.bounded⟩
  obtain ⟨p', hp'⟩ := consistent_refee hs (repricedFee c s.txStore s.chainState.baseFee)
  refine ⟨p', ?_⟩
  rw [rebuildPendingRuntimeIndexes]
  simp only [recount_eq h]
  rw [hfee, foldl_indexReadySeq]
  exact hp'

end Kasane.Chain
