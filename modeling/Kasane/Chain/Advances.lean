import Kasane.Chain.BlockRecords
import Kasane.Chain.PendingIndexes
import Kasane.Chain.SubmitCases

namespace Kasane.Chain

open BigEndian Codec Word Blob

variable {W : Type} {c : Crypto} {counting : Prop}

structure Quiet (s t : StableState W) : Prop where
  world : t.world = s.world
  chainState : t.chainState = s.chainState
  receipts : t.receipts = s.receipts
  blobStore : t.blobStore = s.blobStore
  seenTx : t.seenTx = s.seenTx
  idle : ∀ id, s.pendingMetaByTxId.get id = none → t.pendingMetaByTxId.get id = none

theorem Quiet.refl (s : StableState W) : Quiet s s :=
  ⟨rfl, rfl, rfl, rfl, rfl, fun _ h => h⟩

theorem Quiet.trans {s t u : StableState W} (h : Quiet s t) (h' : Quiet t u) : Quiet s u where
  world := h'.world.trans h.world
  chainState := h'.chainState.trans h.chainState
  receipts := h'.receipts.trans h.receipts
  blobStore := h'.blobStore.trans h.blobStore
  seenTx := h'.seenTx.trans h.seenTx
  idle := fun id hid => h'.idle id (h.idle id hid)

theorem quiet_removePendingFeeIndex (s : StableState W) (id : TxId) :
    Quiet s (removePendingFeeIndexByTxId s id) := by
  obtain ⟨keys, index, heq⟩ := removePendingFeeIndexByTxId_eq s id
  rw [heq]
  exact ⟨rfl, rfl, rfl, rfl, rfl, fun _ h => h⟩

theorem quiet_decrementPrincipal (s : StableState W) (id : TxId) :
    Quiet s (decrementPrincipalPendingCountForTx c s id) := by
  obtain ⟨counts, heq⟩ := decrementPrincipalPendingCountForTx_eq c s id
  rw [heq]
  exact ⟨rfl, rfl, rfl, rfl, rfl, fun _ h => h⟩

theorem quiet_removeReady (s : StableState W) (id : TxId) : Quiet s (removeReadyByTxId s id) := by
  rw [removeReadyByTxId]
  split
  · exact .refl s
  · exact ⟨rfl, rfl, rfl, rfl, rfl, fun _ h => h⟩

theorem quiet_markDropped (s : StableState W) (id : TxId) (code : DropCode) :
    Quiet s (markDroppedAndPurgePayload c s id code) := by
  obtain ⟨keys, index, hashes, locs, ring, ringState, heq⟩ := markDropped_eq (c := c) s id code
  rw [heq]
  exact ⟨rfl, rfl, rfl, rfl, rfl, fun _ h => h⟩

theorem idle_of_fewer {metas metas' : OrdMap TxId SenderNonceKey}
    (h : ∀ id key, metas'.get id = some key → metas.get id = some key) (id : TxId)
    (hid : metas.get id = none) : metas'.get id = none := by
  cases hget : metas'.get id with
  | none => rfl
  | some key => exact absurd (hid.symm.trans (h id key hget)) (by simp)

theorem quiet_tidy {evm : Evm W} {who : Set Address} {s t : StableState W}
    (h : Tidy c evm who s t) : Quiet s t := by
  cases h with
  | queues fewer => exact ⟨rfl, rfl, rfl, rfl, rfl, idle_of_fewer fewer⟩
  | purged id code => exact quiet_markDropped s id code
  | @expected sender _ =>
      obtain ⟨expected, nonces, heq⟩ := expectedNonceForSender_eq evm s sender
      rw [heq]
      exact ⟨rfl, rfl, rfl, rfl, rfl, fun _ h => h⟩
  | suppressed m => exact ⟨rfl, rfl, rfl, rfl, rfl, fun _ h => h⟩

theorem quiet_tidied {evm : Evm W} {who : Set Address} {s t : StableState W}
    (h : Tidied c evm who s t) : Quiet s t := by
  induction h with
  | refl => exact .refl s
  | tail _ ht ih => exact ih.trans (quiet_tidy ht)

theorem Bumps.quiet {evm : Evm W} {s t u : StableState W} {id : TxId} {sender : Address}
    (h : Bumps c evm s id sender u t) : Quiet s t := by
  have hbumped : Quiet u (bumpExpectedNonce evm u sender) :=
    ⟨rfl, rfl, rfl, rfl, rfl, fun _ h => h⟩
  exact ((quiet_tidied h.before).trans hbumped).trans (quiet_tidied h.after)

theorem quiet_included (evm : Evm W) (s : StableState W) (id : TxId) (sender : Address)
    (nonce : Nat) : Quiet s (advanceSender c evm s id (some sender) (some nonce) true) := by
  obtain ⟨u, key, -, hbumps⟩ := bumps_advanceSender s id sender nonce
  exact hbumps.quiet

theorem tidied_rebuildRuntime {evm : Evm W} {who : Set Address} (s : StableState W) :
    Tidied c evm who s (rebuildPendingRuntimeIndexes c evm s) := by
  have hrecount (u : StableState W) (ids : List TxId) :
      Tidied c evm who u (ids.foldl (recountPending c evm) u) := by
    induction ids generalizing u with
    | nil => exact .refl
    | cons id ids ih =>
        refine Relation.ReflTransGen.trans ?_ (ih _)
        rw [recountPending]
        split
        · exact .refl
        · exact tidied_dropPending u id .decode none none
        · split_ifs
          · exact .single (.queues fun _ _ h => h)
          · exact .refl
  have hready (u : StableState W) (l : List (TxId × ReadyKey)) :
      Tidied c evm who u (l.foldl indexReadySeq u) := by
    rw [foldl_indexReadySeq]
    exact .single (.queues fun _ _ h => h)
  have hfee (u : StableState W) (baseFee : Nat) :
      Tidied c evm who u (rebuildPendingFeeIndexForBaseFee c u baseFee) := by
    obtain ⟨index, keys, heq⟩ := rebuildPendingFee_frame (c := c) baseFee u
    rw [heq]
    exact .single (.queues fun _ _ h => h)
  have hstart : Tidied c evm who s { s with principalPendingCount := .empty, readyBySeq := .empty } :=
    .single (.queues fun _ _ h => h)
  exact ((hstart.trans (hrecount _ _)).trans (hfee _ _)).trans (hready _ _)

theorem quiet_dropPending (evm : Evm W) (s : StableState W) (id : TxId) (code : DropCode)
    (sender : Option Address) (nonce : Option Nat) :
    Quiet s (dropPending c evm s id code sender nonce) :=
  quiet_tidied (@tidied_dropPending W c evm ∅ s id code sender nonce)

theorem quiet_applyDrops (evm : Evm W) (s : StableState W) (drops : List QueuedDrop) :
    Quiet s (applyDrops c evm s drops) :=
  quiet_tidied (@tidied_applyDrops W c evm ∅ s drops)

theorem quiet_decodeSuppress {s : StableState W} (m : OrdMap Principal Nat) :
    Quiet s { s with decodeSuppressUntil := m } :=
  ⟨rfl, rfl, rfl, rfl, rfl, fun _ h => h⟩

structure Booked (s : StableState W) (id : TxId) (ptr : BlobPtr) : Prop where
  seen : s.seenTx.get id ≠ none
  idle : s.pendingMetaByTxId.get id = none
  held : ∃ data, s.blobStore.Holds ptr data

def Books (s : StableState W) : Prop := ∀ id ptr, s.receipts.get id = some ptr → Booked s id ptr

theorem books_init (world : W) : Books (StableState.init world) := by
  intro id ptr h
  exact absurd h (by simp [StableState.init])

structure Advances (s t : StableState W) : Prop where
  minPriorityFee : t.chainState.minPriorityFee = s.chainState.minPriorityFee
  books : Books s → Books t
  receipts : Books s → ∀ id ptr, s.receipts.get id = some ptr → t.receipts.get id = some ptr
  holds : ∀ ptr data, s.blobStore.Holds ptr data → t.blobStore.Holds ptr data

theorem Advances.trans {s t u : StableState W} (h : Advances s t) (h' : Advances t u) :
    Advances s u where
  minPriorityFee := h'.minPriorityFee.trans h.minPriorityFee
  books := h'.books ∘ h.books
  receipts := fun hs id ptr hptr => h'.receipts (h.books hs) id ptr (h.receipts hs id ptr hptr)
  holds := fun ptr data hold => h'.holds ptr data (h.holds ptr data hold)

theorem Advances.ofSame {s t : StableState W}
    (minPriorityFee : t.chainState.minPriorityFee = s.chainState.minPriorityFee)
    (receipts : t.receipts = s.receipts) (blobStore : t.blobStore = s.blobStore)
    (seenTx : t.seenTx = s.seenTx) (pending : t.pendingMetaByTxId = s.pendingMetaByTxId) :
    Advances s t where
  minPriorityFee := minPriorityFee
  books := by
    intro hs id ptr hptr
    obtain ⟨hseen, hidle, data, hheld⟩ := hs id ptr (receipts ▸ hptr)
    exact ⟨seenTx ▸ hseen, pending ▸ hidle, data, blobStore ▸ hheld⟩
  receipts := fun _ _ _ hptr => receipts ▸ hptr
  holds := fun _ _ hold => blobStore ▸ hold

theorem Quiet.advances {s t : StableState W} (h : Quiet s t) : Advances s t where
  minPriorityFee := congrArg ChainState.minPriorityFee h.chainState
  books := by
    intro hs id ptr hptr
    rw [h.receipts] at hptr
    obtain ⟨hseen, hidle, data, hheld⟩ := hs id ptr hptr
    exact ⟨h.seenTx ▸ hseen, h.idle id hidle, data, h.blobStore ▸ hheld⟩
  receipts := fun _ id ptr hptr => h.receipts ▸ hptr
  holds := fun ptr data hold => h.blobStore ▸ hold

theorem quiet_promoteIfNextNonce (s : StableState W) (sender : Address) (id : TxId) (nonce : Nat)
    (envelope : StoredTxBytes) (seq : Nat) :
    Quiet s (promoteIfNextNonce s sender id nonce envelope seq) := by
  have hready (u : StableState W) : Quiet u (insertReady
      { u with pendingMinNonce := u.pendingMinNonce.insert sender nonce } id envelope.maxFeePerGas
        envelope.maxPriorityFeePerGas envelope.isDynamicFee seq) :=
    ⟨rfl, rfl, rfl, rfl, rfl, fun _ h => h⟩
  rw [promoteIfNextNonce]
  split
  · exact hready s
  · split
    · exact hready s
    · split
      · exact hready s
      · exact (quiet_removeReady s _).trans (hready _)
  · exact .refl s

theorem enqueuePending_frame (s : StableState W) (envelope : StoredTxBytes) (sender : Address)
    (nonce price : Nat) :
    ∃ u seq, enqueuePending c s sender nonce price envelope =
        promoteIfNextNonce u sender envelope.txId nonce envelope seq ∧
      u.receipts = s.receipts ∧ u.blobStore = s.blobStore ∧
      u.seenTx = s.seenTx.insert envelope.txId 1 ∧
      u.pendingMetaByTxId = s.pendingMetaByTxId.insert envelope.txId ⟨sender, nonce⟩ ∧
      u.chainState.minPriorityFee = s.chainState.minPriorityFee := by
  obtain ⟨hashes, hhashes⟩ := insertEthTxHashIndex_eq (c := c)
    { s with
      seenTx := s.seenTx.insert envelope.txId 1
      txStore := s.txStore.insert envelope.txId envelope } envelope.txId envelope
  rw [enqueuePending, hhashes]
  exact ⟨_, _, rfl, rfl, rfl, rfl, rfl, rfl⟩

theorem advances_enqueuePending {s : StableState W} {envelope : StoredTxBytes}
    (hfresh : s.seenTx.get envelope.txId = none) (sender : Address) (nonce price : Nat) :
    Advances s (enqueuePending c s sender nonce price envelope) := by
  obtain ⟨u, seq, heq, hreceipts, hblobs, hseenTx, hmeta, hfee⟩ :=
    enqueuePending_frame (c := c) s envelope sender nonce price
  rw [heq]
  refine Advances.trans ?_ (quiet_promoteIfNextNonce u sender _ nonce envelope seq).advances
  refine ⟨hfee, ?_, fun _ _ _ hptr => hreceipts ▸ hptr, fun _ _ hold => hblobs ▸ hold⟩
  intro hs id ptr hptr
  rw [hreceipts] at hptr
  obtain ⟨hseen, hidle, data, hheld⟩ := hs id ptr hptr
  have hne : id ≠ envelope.txId := by
    rintro rfl
    exact hseen hfresh
  refine ⟨?_, ?_, data, hblobs ▸ hheld⟩
  · rw [hseenTx, OrdMap.get_insert, if_neg hne]
    exact hseen
  · rw [hmeta, OrdMap.get_insert, if_neg hne]
    exact hidle

theorem Submission.advances {evm : Evm W} {call : SubmitCall} {s t : StableState W}
    {r : Except ChainError TxId} (h : Submission c evm call s r t) : Advances s t := by
  cases h with
  | refused e tidied => exact (quiet_tidied tidied).advances
  | @queued u envelope sender nonce price submitted fresh tidied _ =>
      have hquiet := quiet_tidied tidied
      refine hquiet.advances.trans (advances_enqueuePending ?_ sender nonce price)
      rw [hquiet.seenTx]
      exact fresh

theorem Indexed.idle_iff {s : StableState W} {p : Pool} (h : Indexed s.pendingMaps p) (id : TxId) :
    s.pendingMetaByTxId.get id = none ↔ p.entry id = none := by
  constructor
  · intro hnone
    cases hentry : p.entry id with
    | none => rfl
    | some e =>
        have hget : s.pendingMetaByTxId.get id = some e.key := h.byTxId.get_some hentry
        exact absurd (hnone.symm.trans hget) (by simp)
  · intro hnone
    refine h.byTxId.get_none ?_
    rintro j e hj rfl
    exact absurd (hnone.symm.trans hj) (by simp)

theorem advances_stored {s : StableState W} {blobs : BlobStore} {oldest : Option (Nat × Nat)}
    (h : ∀ ptr data, s.blobStore.Holds ptr data → blobs.Holds ptr data) :
    Advances s { s with blobStore := blobs, oldestBlock := oldest } := by
  refine ⟨rfl, ?_, fun _ _ _ hptr => hptr, h⟩
  intro hs id ptr hptr
  obtain ⟨hseen, hidle, data, hheld⟩ := hs id ptr hptr
  exact ⟨hseen, hidle, data, h ptr data hheld⟩

structure Includes.Frame (s t : StableState W) : Prop where
  chainState : t.chainState = s.chainState
  idle : ∀ id, s.pendingMetaByTxId.get id = none → t.pendingMetaByTxId.get id = none

theorem frame_includeTx (evm : Evm W) (number : Nat) (q : StagedPersist) (s : StableState W) :
    Includes.Frame s (includeTx c evm number s q) := by
  rw [includeTx]
  constructor
  · exact (quiet_included evm _ _ _ _).chainState
  · intro id hid
    exact (quiet_included evm _ _ _ _).idle id hid

theorem frame_includeAll (evm : Evm W) (number : Nat) (persisted : List StagedPersist)
    (s : StableState W) :
    Includes.Frame s (persisted.foldl (includeTx c evm number) s) := by
  induction persisted generalizing s with
  | nil => exact ⟨rfl, fun _ hidle => hidle⟩
  | cons q persisted ih =>
      have hfirst := frame_includeTx (c := c) evm number q s
      obtain ⟨hchain, hidle⟩ := ih (includeTx c evm number s q)
      exact ⟨hchain.trans hfirst.chainState, fun id hid => hidle id (hfirst.idle id hid)⟩

theorem advances_includeAll (evm : Evm W) (number : Nat) {s : StableState W} {p : Pool}
    {persisted : List StagedPersist} (h : Consistent c counting s p)
    (hp : Pending p (persisted.map (fun q => q.staged.txId)))
    (hheld : ∀ q ∈ persisted, ∃ data, s.blobStore.Holds q.receiptPtr data) :
    Advances s (persisted.foldl (includeTx c evm number) s) := by
  obtain ⟨hchain, hidle⟩ := frame_includeAll (c := c) evm number persisted s
  obtain ⟨p', hretires⟩ := retires_includeAll evm number h hp
  have hincludes := includes_includeAll evm number h hp
  refine ⟨congrArg ChainState.minPriorityFee hchain, ?_, ?_, ?_⟩
  · intro hs id ptr hptr
    by_cases hid : id ∈ persisted.map (fun q => q.staged.txId)
    · have hgone := (hretires.consistent.indexed.idle_iff id).mpr (hretires.gone id hid)
      obtain ⟨e, he⟩ := hp.pending id hid
      obtain ⟨mark, hmark⟩ := h.backed.marked he
      obtain ⟨q, hq, rfl⟩ := List.mem_map.mp hid
      obtain rfl := Option.some.inj ((hincludes.receipt q hq).symm.trans hptr)
      obtain ⟨data, hdata⟩ := hheld q hq
      refine ⟨?_, hgone, data, hincludes.blobStore ▸ hdata⟩
      rw [hretires.same.seenTx, hmark]
      simp
    · rw [hincludes.other id hid] at hptr
      obtain ⟨hseen, hidleId, data, hdata⟩ := hs id ptr hptr
      exact ⟨hretires.same.seenTx ▸ hseen, hidle id hidleId, data, hincludes.blobStore ▸ hdata⟩
  · intro hs id ptr hptr
    rw [hincludes.other id ?_]
    · exact hptr
    · intro hid
      obtain ⟨e, he⟩ := hp.pending id hid
      have hnone := (h.indexed.idle_iff id).mp (hs id ptr hptr).idle
      exact absurd (hnone.symm.trans he) (by simp)
  · intro ptr data hold
    exact hincludes.blobStore ▸ hold

theorem advances_commitBlock {evm : Evm W} {env : CallEnv} {ctx : BlockExecContext} {gasUsed : Nat}
    {block : BlockData} {drops : List QueuedDrop} {included : List StagedIncluded}
    {s t : StableState W} {p : Pool} (h : Consistent c counting s p)
    (hp : Pending p (drops.map QueuedDrop.txId ++ included.map StagedIncluded.txId))
    (hrun : commitBlock c evm env ctx gasUsed block drops included s = some t) : Advances s t := by
  obtain ⟨p₁, hdrops⟩ := retires_applyDrops evm h hp.left
  have hquiet := quiet_applyDrops (c := c) evm s drops
  have hpending := hp.right hdrops.kept
  obtain ⟨⟨persisted, s₂⟩, hpersist, hrun⟩ := Option.bind_eq_some_iff.mp hrun
  obtain ⟨⟨ptr, s₃⟩, hstore, hrun⟩ := Option.bind_eq_some_iff.mp hrun
  obtain ⟨hretained, hheld⟩ := retains_persistAll hdrops.consistent.archived.sound hpersist
  have hblock := retains_storeBlock hretained.sound hstore
  obtain ⟨hstaged, b₂, rfl, hk₂⟩ := persistAll_some hpersist
  obtain ⟨b₃, oldest, rfl, hk₃, -⟩ := storeBlock_some hstore
  have hpersisted : persisted.map (fun q => q.staged.txId) = included.map StagedIncluded.txId := by
    rw [← hstaged, List.map_map]
    rfl
  have h₃ : Consistent c counting
      { applyDrops c evm s drops with blobStore := b₃, oldestBlock := oldest } p₁ := by
    have hblobs := consistent_blobs hdrops.consistent (hk₂.trans hk₃)
    exact ⟨hblobs.indexed, hblobs.backed, hblobs.archived, hblobs.bounded, hblobs.counted⟩
  rw [← hpersisted] at hpending
  have hincluded := advances_includeAll evm ctx.blockNumber h₃ hpending
    (fun q hq => ⟨_, hblock.holds _ _ (hheld q hq)⟩)
  have hstored : Advances (applyDrops c evm s drops)
      { applyDrops c evm s drops with blobStore := b₃, oldestBlock := oldest } :=
    advances_stored (hretained.trans hblock).holds
  refine (hquiet.advances.trans hstored).trans (hincluded.trans ?_)
  obtain rfl := Option.some.inj hrun
  obtain ⟨index, keys, hfee⟩ := rebuildPendingFee_frame (c := c) (W := W) _ _
  rw [hfee]
  exact .ofSame rfl rfl rfl rfl rfl

theorem advances_produceBlock {evm : Evm W} {env : CallEnv} {maxTxs : Nat} {s t : StableState W}
    {p : Pool} {r : Except ChainError ProduceBlockOutcome} (h : Consistent c counting s p)
    (hrun : produceBlock c evm env maxTxs s = some (r, t)) : Advances s t := by
  rw [produceBlock] at hrun
  split_ifs at hrun with hmax
  · obtain ⟨-, rfl⟩ := Prod.mk.inj (Option.some.inj hrun)
    exact (Quiet.refl s).advances
  · dsimp only at hrun
    obtain ⟨⟨m, hstate⟩, -⟩ := prepares_candidates (c := c) env
      ⟨saturatingAdd u64Max s.head.number 1, max (saturatingAdd u64Max s.head.timestamp 1) env.now,
        s.chainState.baseFee, s.chainState.blockGasLimit⟩
      s.chainState.updateInstructionSoftLimit (env.counter 0)
      (selectReadyCandidates c s s.chainState.baseFee maxTxs) ⟨s, 1, [], 0, .empty⟩
    have hprepared := prepared_of_select h env
      ⟨saturatingAdd u64Max s.head.number 1, max (saturatingAdd u64Max s.head.timestamp 1) env.now,
        s.chainState.baseFee, s.chainState.blockGasLimit⟩
      s.chainState.updateInstructionSoftLimit (env.counter 0) s.chainState.baseFee maxTxs
    generalize prepareCandidates c env _ _ _ _ _ = q at hrun hprepared hstate
    have hquiet : Quiet s q.state := by
      rw [hstate]
      exact quiet_decodeSuppress m
    split_ifs at hrun with hempty hnone
    · obtain ⟨-, rfl⟩ := Prod.mk.inj (Option.some.inj hrun)
      exact (Quiet.refl s).advances
    · obtain ⟨-, rfl⟩ := Prod.mk.inj (Option.some.inj hrun)
      exact (hquiet.trans (quiet_applyDrops evm _ _)).advances
    · split at hrun
      · obtain ⟨-, rfl⟩ := Prod.mk.inj (Option.some.inj hrun)
        exact hquiet.advances
      · rename_i x hexec
        have hpending : Pending p (x.drops.map QueuedDrop.txId ++
            x.included.map StagedIncluded.txId) :=
          hprepared.pending.subperm (executes_staged hexec).ids
        have hworld (world : W) : Consistent c counting { q.state with world := world } p :=
          ⟨hprepared.consistent.indexed, hprepared.consistent.backed, hprepared.consistent.archived,
            hprepared.consistent.bounded, hprepared.consistent.counted⟩
        have hmoved (world : W) : Advances s { q.state with world := world } :=
          hquiet.advances.trans (.ofSame rfl rfl rfl rfl rfl)
        split_ifs at hrun with hincluded
        · obtain ⟨-, rfl⟩ := Prod.mk.inj (Option.some.inj hrun)
          exact (hquiet.trans (quiet_applyDrops evm _ _)).advances
        · split at hrun
          · obtain ⟨-, rfl⟩ := Prod.mk.inj (Option.some.inj hrun)
            exact hmoved _
          · obtain ⟨u, hcommit, heq⟩ := Option.map_eq_some_iff.mp hrun
            obtain ⟨-, rfl⟩ := Prod.mk.inj heq
            exact (hmoved _).trans (advances_commitBlock (hworld _) hpending hcommit)

theorem admitted_priority {evm : Evm W} {s t : StableState W} {now : Nat}
    {who canisterId : Principal} {tx : IcSyntheticTxInput} {id : TxId}
    (h : submitIcTxInput c evm now who canisterId tx s = (.ok id, t)) :
    s.chainState.minPriorityFee ≤ tx.maxPriorityFeePerGas.toNat := by
  obtain ⟨suppressed, m, hsup⟩ := isPrincipalDecodeSuppressed_eq s who now
  rw [submitIcTxInput, hsup] at h
  cases suppressed with
  | true => exact absurd (Prod.mk.inj h).1 (by simp)
  | false =>
      dsimp only at h
      split at h
      · exact absurd (Prod.mk.inj h).1 (by simp)
      · split at h
        · exact absurd (Prod.mk.inj h).1 (by simp)
        · split_ifs at h with hseen hfee
          · exact absurd (Prod.mk.inj h).1 (by simp)
          · exact absurd (Prod.mk.inj h).1 (by simp)
          · by_contra hlow
            exact hfee (if_pos (not_le.mp hlow))

end Kasane.Chain
