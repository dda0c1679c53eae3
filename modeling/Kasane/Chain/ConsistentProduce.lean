import Kasane.Chain.ConsistentRebuild
import Mathlib.Data.List.Perm.Subperm

namespace Kasane.Chain

open BigEndian Codec Word Blob

variable {W : Type} {c : Crypto} {counting : Prop}

theorem subperm_pushTopKCandidate (maxTxs : Nat) (heap : List ReadyCandidate)
    (candidate : ReadyCandidate) : (pushTopKCandidate maxTxs heap candidate).Subperm (candidate :: heap) := by
  rw [pushTopKCandidate]
  split_ifs
  · exact .refl _
  · split
    · exact (List.sublist_cons_self ..).subperm
    · rename_i worst _
      split_ifs
      · exact (List.Sublist.cons_cons _ List.erase_sublist).subperm
      · exact (List.sublist_cons_self ..).subperm

theorem subperm_foldl_pushTopK (maxTxs : Nat) (candidates heap : List ReadyCandidate) :
    (candidates.foldl (pushTopKCandidate maxTxs) heap).Subperm (candidates ++ heap) := by
  induction candidates generalizing heap with
  | nil => exact .refl _
  | cons candidate candidates ih =>
      rw [List.foldl_cons]
      refine (ih _).trans ?_
      refine ((List.subperm_append_left candidates).mpr
        (subperm_pushTopKCandidate maxTxs heap candidate)).trans ?_
      exact List.perm_middle.subperm

theorem subperm_selectTopK (candidates : List ReadyCandidate) (maxTxs : Nat) :
    (selectTopKReadyCandidates candidates maxTxs).Subperm (candidates.map ReadyCandidate.txId) := by
  rw [selectTopKReadyCandidates]
  split_ifs
  · exact List.nil_subperm
  · have hperm := (List.mergeSort_perm (candidates.foldl (pushTopKCandidate maxTxs) [])
      (fun a b => decide (b ≤ a))).map ReadyCandidate.txId
    have hsub := subperm_foldl_pushTopK maxTxs candidates []
    rw [List.append_nil] at hsub
    obtain ⟨kept, hkept, hsublist⟩ := hsub
    exact hperm.subperm.trans ⟨_, hkept.map _, hsublist.map _⟩

theorem txId_readyCandidate (s : StableState W) (baseFee : Nat) (key : ReadyKey) (id : TxId) :
    (readyCandidate c s baseFee key id).txId = id := by
  rw [readyCandidate]
  split
  · rfl
  · rfl

theorem subperm_selectReady (s : StableState W) (baseFee maxTxs : Nat) :
    (selectReadyCandidates c s baseFee maxTxs).Subperm
      ((s.readyQueue.entries.take readyCandidateLimit).map Prod.snd) := by
  rw [selectReadyCandidates]
  split_ifs
  · exact List.nil_subperm
  · have hsub := subperm_selectTopK ((s.readyQueue.entries.take readyCandidateLimit).map
      (fun e => readyCandidate c s baseFee e.1 e.2)) maxTxs
    rw [List.map_map] at hsub
    have hsame : ReadyCandidate.txId ∘ (fun e : ReadyKey × TxId => readyCandidate c s baseFee e.1 e.2) =
        Prod.snd := by
      funext e
      exact txId_readyCandidate s baseFee e.1 e.2
    rwa [hsame] at hsub

structure Pending (p : Pool) (ids : List TxId) : Prop where
  nodup : ids.Nodup
  pending : ∀ id ∈ ids, ∃ e, p.entry id = some e

theorem Pending.subperm {p : Pool} {ids ids' : List TxId} (h : Pending p ids)
    (hsub : ids'.Subperm ids) : Pending p ids' := by
  obtain ⟨l, hperm, hl⟩ := hsub
  exact ⟨hperm.nodup_iff.mp (h.nodup.sublist hl), fun id hid => h.pending id (hl.subset (hperm.mem_iff.mpr hid))⟩

theorem pending_selectReady {s : StableState W} {p : Pool} (h : Indexed s.pendingMaps p)
    (baseFee maxTxs : Nat) : Pending p (selectReadyCandidates c s baseFee maxTxs) := by
  have hall : Pending p ((s.readyQueue.entries.take readyCandidateLimit).map Prod.snd) := by
    have hentry (e : ReadyKey × TxId) (he : e ∈ s.readyQueue.entries.take readyCandidateLimit) :
        ∃ f, p.entry e.2 = some f ∧ f.ready = e.1 := by
      obtain ⟨j, f, hj, hready, hid⟩ := (h.readyQueue e.1 e.2).mp
        (OrdMap.mem_entries.mp (List.mem_of_mem_take he))
      exact ⟨f, hid ▸ hj, hready⟩
    constructor
    · have hnodup := (s.readyQueue.entries_nodup).sublist (List.take_sublist readyCandidateLimit _)
      refine hnodup.map_on ?_
      intro a ha b hb hab
      obtain ⟨f, hf, hfa⟩ := hentry a ha
      obtain ⟨g, hg, hgb⟩ := hentry b hb
      have hfg : f = g := Option.some.inj (hf.symm.trans (hab ▸ hg))
      exact Prod.ext (hfa.symm.trans ((congrArg PoolEntry.ready hfg).trans hgb)) hab
    · intro id hid
      obtain ⟨e, he, rfl⟩ := List.mem_map.mp hid
      obtain ⟨f, hf, -⟩ := hentry e he
      exact ⟨f, hf⟩
  exact hall.subperm (subperm_selectReady s baseFee maxTxs)

theorem length_selectReady (s : StableState W) (baseFee maxTxs : Nat) :
    (selectReadyCandidates c s baseFee maxTxs).length ≤ readyCandidateLimit := by
  refine le_trans (subperm_selectReady s baseFee maxTxs).length_le ?_
  rw [List.length_map, List.length_take]
  exact min_le_left _ _

def PreparedItem.txId : PreparedItem → TxId
  | .drop d => d.txId
  | .tx t => t.txId

theorem perm_preparedIds (items : List PreparedItem) :
    ((PreparedItem.drops items).map QueuedDrop.txId ++
      (PreparedItem.txs items).map PreparedTx.txId).Perm (items.map PreparedItem.txId) := by
  induction items with
  | nil => exact .refl _
  | cons item items ih =>
      cases item with
      | drop d => exact ih.cons d.txId
      | tx t => exact List.perm_middle.trans (ih.cons t.txId)

structure Prepares (p p' : PrepareState W) (ids : List TxId) : Prop where
  state : ∃ m, p'.state = { p.state with decodeSuppressUntil := m }
  prepared : ∃ l, l.Sublist ids ∧
    p'.prepared.map PreparedItem.txId = p.prepared.map PreparedItem.txId ++ l

theorem prepares_record (timestamp : Nat) (id : TxId) (p : PrepareState W) (r : Preparation) :
    Prepares p (recordPreparation timestamp id p r) [id] := by
  cases r with
  | ready tx => exact ⟨⟨_, rfl⟩, ⟨[id], .refl _, by simp [recordPreparation, PreparedItem.txId]⟩⟩
  | dropped code sender nonce =>
      exact ⟨⟨_, rfl⟩, ⟨[id], .refl _, by simp [recordPreparation, PreparedItem.txId]⟩⟩
  | suppressed => exact ⟨⟨_, rfl⟩, ⟨[id], .refl _, by simp [recordPreparation, PreparedItem.txId]⟩⟩
  | undecodable code =>
      exact ⟨⟨_, rfl⟩, ⟨[id], .refl _, by simp [recordPreparation, PreparedItem.txId]⟩⟩
  | decodeDrop code sender principal =>
      refine ⟨?_, ⟨[id], .refl _, by simp [recordPreparation, PreparedItem.txId]⟩⟩
      simp only [recordPreparation, noteDecodeDropForPrincipal]
      split_ifs
      · exact ⟨_, rfl⟩
      · exact ⟨_, rfl⟩
      · exact ⟨_, rfl⟩
      · exact ⟨_, rfl⟩

theorem prepareCandidate_state (s : StableState W) (baseFee timestamp : Nat) (id : TxId) :
    ∃ m, (prepareCandidate c s baseFee timestamp id).2 = { s with decodeSuppressUntil := m } := by
  rw [prepareCandidate]
  split
  · exact ⟨_, rfl⟩
  · exact ⟨_, rfl⟩
  · exact ⟨_, rfl⟩
  · rename_i stored _
    obtain ⟨suppressed, m, hsup⟩ := isPrincipalDecodeSuppressed_eq s stored.callerPrincipal timestamp
    rw [hsup]
    cases suppressed with
    | true => exact ⟨m, rfl⟩
    | false => exact ⟨m, rfl⟩

theorem Prepares.trans {p q r : PrepareState W} {id : TxId} {ids : List TxId}
    (h : Prepares p q [id]) (h' : Prepares q r ids) : Prepares p r (id :: ids) := by
  obtain ⟨⟨m, hm⟩, ⟨l, hl, heq⟩⟩ := h
  obtain ⟨⟨m', hm'⟩, ⟨l', hl', heq'⟩⟩ := h'
  refine ⟨⟨m', by rw [hm', hm]⟩, ⟨l ++ l', hl.append hl', ?_⟩⟩
  rw [heq', heq, List.append_assoc]

theorem prepares_nil {p p' : PrepareState W} {ids : List TxId} (hstate : p'.state = p.state)
    (hprepared : p'.prepared = p.prepared) : Prepares p p' ids :=
  ⟨⟨p.state.decodeSuppressUntil, hstate⟩, ⟨[], List.nil_sublist _, by rw [hprepared, List.append_nil]⟩⟩

theorem prepares_candidates (env : CallEnv) (ctx : BlockExecContext) (softLimit start : Nat)
    (ids : List TxId) (p : PrepareState W) :
    Prepares p (prepareCandidates c env ctx softLimit start ids p) ids := by
  induction ids generalizing p with
  | nil => exact prepares_nil rfl rfl
  | cons id ids ih =>
      rw [prepareCandidates]
      dsimp only
      split
      · exact prepares_nil rfl rfl
      · obtain ⟨m, hm⟩ := prepareCandidate_state (c := c) p.state ctx.baseFee ctx.timestamp id
        rcases hone : prepareCandidate c p.state ctx.baseFee ctx.timestamp id with ⟨r, s⟩
        rw [hone] at hm
        obtain rfl : s = _ := hm
        have hrec : Prepares p (recordPreparation ctx.timestamp id
            { p with state := { p.state with decodeSuppressUntil := m }, tick := p.tick + 1 } r) [id] := by
          obtain ⟨⟨m', hm'⟩, hprep⟩ := prepares_record ctx.timestamp id
            { p with state := { p.state with decodeSuppressUntil := m }, tick := p.tick + 1 } r
          exact ⟨⟨m', hm'⟩, hprep⟩
        have hnext (q : PrepareState W) (hq : Prepares p q [id]) :
            Prepares p (prepareCandidates c env ctx softLimit start ids q) (id :: ids) :=
          hq.trans (ih q)
        have hstop (q : PrepareState W) (hq : Prepares p q [id]) : Prepares p q (id :: ids) :=
          hq.trans (prepares_nil rfl rfl)
        dsimp only
        split
        · split_ifs
          · exact hstop _ ⟨hrec.state, hrec.prepared⟩
          · exact hnext _ ⟨hrec.state, hrec.prepared⟩
        · split_ifs
          · exact hstop _ hrec
          · exact hnext _ hrec

structure Executes {evm : Evm W} (x x' : ExecState evm) (txs : List PreparedTx) : Prop where
  ids : (x'.drops.map QueuedDrop.txId ++ x'.included.map StagedIncluded.txId).Subperm
    (x.drops.map QueuedDrop.txId ++ (x.included.map StagedIncluded.txId ++ txs.map PreparedTx.txId))

theorem executes_unchanged {evm : Evm W} (x : ExecState evm) (txs : List PreparedTx) :
    Executes x x txs := by
  refine ⟨(List.subperm_append_left _).mpr ?_⟩
  exact (List.sublist_append_left ..).subperm

theorem executes_drop {evm : Evm W} {x y z : ExecState evm} {tx : PreparedTx}
    {txs : List PreparedTx} {code : DropCode} (h : Executes y z txs)
    (hdrops : y.drops = x.drops ++ [queuedDrop tx code]) (hinc : y.included = x.included) :
    Executes x z (tx :: txs) := by
  refine ⟨h.ids.trans ?_⟩
  rw [hdrops, hinc, List.map_append, List.append_assoc, List.subperm_append_left]
  change (tx.txId :: (x.included.map StagedIncluded.txId ++ txs.map PreparedTx.txId)).Subperm
    (x.included.map StagedIncluded.txId ++ tx.txId :: txs.map PreparedTx.txId)
  exact List.perm_middle.symm.subperm

theorem executes_include {evm : Evm W} {x y z : ExecState evm} {tx : PreparedTx}
    {txs : List PreparedTx} {staged : StagedIncluded} (h : Executes y z txs)
    (hid : staged.txId = tx.txId) (hdrops : y.drops = x.drops)
    (hinc : y.included = x.included ++ [staged]) : Executes x z (tx :: txs) := by
  refine ⟨h.ids.trans ?_⟩
  rw [hdrops, hinc, List.map_append, List.append_assoc, List.map_cons, hid]
  exact .refl _

theorem executes_staged {evm : Evm W} {env : CallEnv} {ctx : BlockExecContext}
    {softLimit start : Nat} {txs : List PreparedTx} {x x' : ExecState evm}
    (h : executeStaged evm env ctx softLimit start txs x = .ok x') : Executes x x' txs := by
  induction txs generalizing x with
  | nil =>
      obtain rfl := Except.ok.inj h
      exact executes_unchanged x []
  | cons tx txs ih =>
      rw [executeStaged] at h
      dsimp only at h
      split_ifs at h
      · obtain rfl := Except.ok.inj h
        exact executes_unchanged x _
      · obtain rfl := Except.ok.inj h
        exact executes_unchanged x _
      · exact executes_drop (ih h) rfl rfl
      · split at h
        · exact executes_drop (ih h) rfl rfl
        · split_ifs at h
          · obtain rfl := Except.ok.inj h
            exact executes_include (executes_unchanged _ _) rfl rfl rfl
          · exact executes_include (ih h) rfl rfl rfl

structure SameArchive (s t : StableState W) : Prop where
  seenTx : t.seenTx = s.seenTx
  blobStore : t.blobStore = s.blobStore
  blocks : t.blocks = s.blocks

theorem SameArchive.trans {s t u : StableState W} (h : SameArchive s t) (h' : SameArchive t u) :
    SameArchive s u :=
  ⟨h'.seenTx.trans h.seenTx, h'.blobStore.trans h.blobStore, h'.blocks.trans h.blocks⟩

structure Retires (c : Crypto) (counting : Prop) (s t : StableState W) (p p' : Pool)
    (ids : List TxId) : Prop where
  consistent : Consistent c counting t p'
  same : SameArchive s t
  gone : ∀ id ∈ ids, p'.entry id = none
  kept : ∀ id, id ∉ ids → p'.entry id = p.entry id

theorem Retires.sub {s t : StableState W} {p p' : Pool} {ids : List TxId}
    (h : Retires c counting s t p p' ids) {id : TxId} {e : PoolEntry}
    (hid : p'.entry id = some e) : p.entry id = some e := by
  rw [← h.kept id (fun hmem => absurd ((h.gone id hmem).symm.trans hid) (by simp))]
  exact hid

theorem retires_nil {s : StableState W} {p : Pool} (h : Consistent c counting s p) :
    Retires c counting s s p p [] :=
  ⟨h, ⟨rfl, rfl, rfl⟩, fun _ hid => absurd hid (by simp), fun _ _ => rfl⟩

theorem Retires.cons {s t u : StableState W} {p q r : Pool} {id : TxId} {ids : List TxId}
    (h : Retires c counting s t p q [id]) (h' : Retires c counting t u q r ids)
    (hid : id ∉ ids) : Retires c counting s u p r (id :: ids) := by
  refine ⟨h'.consistent, h.same.trans h'.same, ?_, ?_⟩
  · intro j hj
    rcases List.mem_cons.mp hj with rfl | hj
    · rw [h'.kept j hid]
      exact h.gone j (List.mem_singleton_self j)
    · exact h'.gone j hj
  · intro j hj
    rw [List.mem_cons, not_or] at hj
    rw [h'.kept j hj.2, h.kept j (by simpa using hj.1)]

theorem Pending.tail {p q : Pool} {id : TxId} {ids : List TxId} (h : Pending p (id :: ids))
    (hkept : ∀ j, j ∉ [id] → q.entry j = p.entry j) : Pending q ids := by
  obtain ⟨hid, hnodup⟩ := List.nodup_cons.mp h.nodup
  refine ⟨hnodup, ?_⟩
  intro j hj
  have hne : j ∉ [id] := by
    intro hmem
    exact hid (List.mem_singleton.mp hmem ▸ hj)
  rw [hkept j hne]
  exact h.pending j (List.mem_cons_of_mem _ hj)

theorem retires_foldl {A : Type} {f : StableState W → A → StableState W} {txId : A → TxId}
    (hstep : ∀ (s : StableState W) (p : Pool) (a : A) (e : PoolEntry), Consistent c counting s p →
      p.entry (txId a) = some e → Retires c counting s (f s a) p (p.erase (txId a)) [txId a])
    {l : List A} {s : StableState W} {p : Pool} (h : Consistent c counting s p)
    (hp : Pending p (l.map txId)) :
    ∃ p', Retires c counting s (l.foldl f s) p p' (l.map txId) := by
  induction l generalizing s p with
  | nil => exact ⟨p, retires_nil h⟩
  | cons a l ih =>
      obtain ⟨e, he⟩ := hp.pending (txId a) (List.mem_cons_self ..)
      have hone := hstep s p a e h he
      obtain ⟨p', hp'⟩ := ih hone.consistent (hp.tail hone.kept)
      exact ⟨p', hone.cons hp' (List.nodup_cons.mp hp.nodup).1⟩

theorem kept_erase (p : Pool) (id : TxId) : ∀ j, j ∉ [id] → (p.erase id).entry j = p.entry j :=
  fun _ hj => p.erase_of_ne (by simpa using hj)

theorem gone_erase (p : Pool) (id : TxId) : ∀ j ∈ [id], (p.erase id).entry j = none := by
  intro j hj
  obtain rfl := List.mem_singleton.mp hj
  exact p.erase_self j

theorem retires_applyDrop (evm : Evm W) (s : StableState W) (p : Pool) (d : QueuedDrop)
    (e : PoolEntry) (h : Consistent c counting s p) (hid : p.entry d.txId = some e) :
    Retires c counting s (applyDrop c evm s d) p (p.erase d.txId) [d.txId] := by
  refine ⟨consistent_dropPending h hid _ _ _, ?_, gone_erase p _, kept_erase p _⟩
  obtain ⟨nonces, ⟨hashes, locs, ring, ringState, heq⟩, -⟩ :=
    dropPending_effect (c := c) evm h.indexed hid d.code d.senderOverride d.nonceOverride
  rw [applyDrop, heq]
  exact ⟨rfl, rfl, rfl⟩

theorem retires_applyDrops (evm : Evm W) {s : StableState W} {p : Pool} {drops : List QueuedDrop}
    (h : Consistent c counting s p) (hp : Pending p (drops.map QueuedDrop.txId)) :
    ∃ p', Retires c counting s (applyDrops c evm s drops) p p' (drops.map QueuedDrop.txId) :=
  retires_foldl (retires_applyDrop evm) h hp

theorem retires_includeTx (evm : Evm W) (number : Nat) (s : StableState W) (p : Pool)
    (q : StagedPersist) (e : PoolEntry) (h : Consistent c counting s p)
    (hid : p.entry q.staged.txId = some e) :
    Retires c counting s (includeTx c evm number s q) p (p.erase q.staged.txId) [q.staged.txId] := by
  have hun := consistent_unlinked h hid
  obtain ⟨txIndex, receipts, traces, hinclude⟩ : ∃ txIndex receipts traces,
      includeTx c evm number s q = advanceSender c evm
        { s with
          txIndex := txIndex
          receipts := receipts
          internalTraces := traces
          txLocs := s.txLocs.insert q.staged.txId (.included number q.staged.outcome.txIndex) }
        q.staged.txId (some q.staged.sender) (some q.staged.nonce) true := ⟨_, _, _, rfl⟩
  obtain ⟨nonces, heq⟩ := advanceSender_eq (c := c) evm
    (s := { s with
      txIndex := txIndex
      receipts := receipts
      internalTraces := traces
      txLocs := s.txLocs.insert q.staged.txId (.included number q.staged.outcome.txIndex) })
    h.indexed hid (some q.staged.sender) (some q.staged.nonce) true
  rw [hinclude, heq]
  refine ⟨?_, ⟨rfl, rfl, rfl⟩, gone_erase p _, kept_erase p _⟩
  refine ⟨hun.indexed, ?_, hun.archived, hun.bounded, hun.counted⟩
  refine hun.backed.mono (fun hj => ⟨_, hj⟩) (fun _ => rfl) ?_ (fun _ => rfl)
  intro j f loc hj hloc _
  have hne : j ≠ q.staged.txId := by
    rintro rfl
    exact absurd ((p.erase_self _).symm.trans hj) (by simp)
  change (s.txLocs.insert _ _).get j = some loc
  rw [OrdMap.get_insert, if_neg hne]
  exact hloc

theorem retires_includeAll (evm : Evm W) (number : Nat) {s : StableState W} {p : Pool}
    {persisted : List StagedPersist} (h : Consistent c counting s p)
    (hp : Pending p (persisted.map (fun q => q.staged.txId))) :
    ∃ p', Retires c counting s (persisted.foldl (includeTx c evm number) s) p p'
      (persisted.map (fun q => q.staged.txId)) :=
  retires_foldl (retires_includeTx evm number) h hp

theorem storeBytes_some {env : CallEnv} {s t : StableState W} {bytes : Bytes} {ptr : BlobPtr}
    (h : storeBytes env s bytes = some (ptr, t)) :
    ∃ blobs, t = { s with blobStore := blobs } ∧ s.blobStore.Keeps blobs ∧ blobs.Holds ptr bytes := by
  rw [storeBytes] at h
  split at h
  · rename_i q blobs hstore
    obtain ⟨rfl, rfl⟩ := Prod.mk.inj (Option.some.inj h)
    exact ⟨blobs, rfl, BlobStore.keeps_storeBytes hstore, BlobStore.holds_storeBytes hstore⟩
  · exact absurd h (by simp)

theorem storeInternalTraces_some {env : CallEnv} {s t : StableState W} {bytes : Option Bytes}
    {ptr : Option BlobPtr} (h : storeInternalTraces env s bytes = some (ptr, t)) :
    ∃ blobs, t = { s with blobStore := blobs } ∧ s.blobStore.Keeps blobs := by
  cases bytes with
  | none =>
      obtain ⟨-, rfl⟩ := Prod.mk.inj (Option.some.inj h)
      exact ⟨s.blobStore, rfl, .refl _⟩
  | some bytes =>
      obtain ⟨⟨q, u⟩, hstore, heq⟩ := Option.map_eq_some_iff.mp h
      obtain ⟨-, rfl⟩ := Prod.mk.inj heq
      obtain ⟨blobs, hblobs, hkeeps, -⟩ := storeBytes_some hstore
      exact ⟨blobs, hblobs, hkeeps⟩

theorem persistIncluded_some {env : CallEnv} {number : Nat} {s t : StableState W}
    {staged : StagedIncluded} {q : StagedPersist}
    (h : persistIncluded env number s staged = some (q, t)) :
    q.staged = staged ∧ ∃ blobs, t = { s with blobStore := blobs } ∧ s.blobStore.Keeps blobs := by
  obtain ⟨⟨indexPtr, s₁⟩, hindex, h⟩ := Option.bind_eq_some_iff.mp h
  obtain ⟨⟨receiptPtr, s₂⟩, hreceipt, h⟩ := Option.bind_eq_some_iff.mp h
  obtain ⟨⟨tracesPtr, s₃⟩, htraces, h⟩ := Option.bind_eq_some_iff.mp h
  obtain ⟨rfl, rfl⟩ := Prod.mk.inj (Option.some.inj h)
  obtain ⟨b₁, rfl, hk₁, -⟩ := storeBytes_some hindex
  obtain ⟨b₂, rfl, hk₂, -⟩ := storeBytes_some hreceipt
  obtain ⟨b₃, rfl, hk₃⟩ := storeInternalTraces_some htraces
  exact ⟨rfl, b₃, rfl, hk₁.trans (hk₂.trans hk₃)⟩

theorem persistAll_some {env : CallEnv} {number : Nat} {included : List StagedIncluded}
    {s t : StableState W} {persisted : List StagedPersist}
    (h : persistAll env number included s = some (persisted, t)) :
    persisted.map StagedPersist.staged = included ∧
      ∃ blobs, t = { s with blobStore := blobs } ∧ s.blobStore.Keeps blobs := by
  induction included generalizing s persisted with
  | nil =>
      obtain ⟨rfl, rfl⟩ := Prod.mk.inj (Option.some.inj h)
      exact ⟨rfl, s.blobStore, rfl, .refl _⟩
  | cons staged included ih =>
      obtain ⟨⟨q, s₁⟩, hone, h⟩ := Option.bind_eq_some_iff.mp h
      obtain ⟨⟨tail, s₂⟩, hrest, h⟩ := Option.bind_eq_some_iff.mp h
      obtain ⟨rfl, rfl⟩ := Prod.mk.inj (Option.some.inj h)
      obtain ⟨hq, b₁, rfl, hk₁⟩ := persistIncluded_some hone
      obtain ⟨htail, b₂, rfl, hk₂⟩ := ih hrest
      exact ⟨by rw [List.map_cons, hq, htail], b₂, rfl, hk₁.trans hk₂⟩

theorem storeBlock_some {env : CallEnv} {s t : StableState W} {block : BlockData} {ptr : BlobPtr}
    (h : storeBlock env s block = some (ptr, t)) :
    ∃ blobs oldest, t = { s with blobStore := blobs, oldestBlock := oldest } ∧
      s.blobStore.Keeps blobs ∧ blobs.Holds ptr block.toBytes := by
  obtain ⟨⟨q, u⟩, hstore, heq⟩ := Option.map_eq_some_iff.mp h
  obtain ⟨rfl, rfl⟩ := Prod.mk.inj heq
  obtain ⟨blobs, rfl, hkeeps, hholds⟩ := storeBytes_some hstore
  dsimp only
  split_ifs
  · exact ⟨blobs, _, rfl, hkeeps, hholds⟩
  · exact ⟨blobs, s.oldestBlock, rfl, hkeeps, hholds⟩

theorem consistent_blobs {s : StableState W} {p : Pool} {blobs : BlobStore}
    (h : Consistent c counting s p) (hk : s.blobStore.Keeps blobs) :
    Consistent c counting { s with blobStore := blobs } p :=
  ⟨h.indexed, h.backed, h.archived.mono hk (fun hptr => hptr) (fun _ _ => rfl) (fun _ _ hp => hp),
    h.bounded, h.counted⟩

structure Retired (s : StableState W) (p : Pool) (ids : List TxId) : Prop where
  idle : ∀ id ∈ ids, p.entry id = none
  marked : ∀ id ∈ ids, ∃ mark, s.seenTx.get id = some mark
  unarchived : ∀ id ∈ ids, ∀ n b, blockAt s.blobStore s.blocks n = some b → id ∉ b.txIds

theorem retired_of_retires {s t : StableState W} {p p' : Pool} {ids : List TxId}
    (h : Consistent c counting s p) (hp : Pending p ids) (hr : Retires c counting s t p p' ids) :
    Retired t p' ids := by
  refine ⟨hr.gone, ?_, ?_⟩
  · intro id hid
    obtain ⟨e, he⟩ := hp.pending id hid
    rw [hr.same.seenTx]
    exact h.backed.marked he
  · intro id hid n b hb hmem
    rw [hr.same.blobStore, hr.same.blocks] at hb
    obtain ⟨e, he⟩ := hp.pending id hid
    exact absurd ((h.archived.idle hb hmem).symm.trans he) (by simp)

theorem archived_insert {blobs : BlobStore} {blocks : OrdMap Nat BlobPtr} {seen : OrdMap TxId UInt8}
    {p : Pool} {ptr : BlobPtr} {block : BlockData} (number : Nat)
    (h : Archived blobs blocks seen p) (hholds : blobs.Holds ptr block.toBytes)
    (hlen : block.txIds.length ≤ maxTxsPerBlock)
    (hidle : ∀ id ∈ block.txIds, p.entry id = none)
    (hmarked : ∀ id ∈ block.txIds, ∃ mark, seen.get id = some mark)
    (hnew : ∀ id ∈ block.txIds, ∀ n b, blockAt blobs blocks n = some b → id ∉ b.txIds) :
    Archived blobs (blocks.insert number ptr) seen p := by
  have hload {n : Nat} {b : BlockData} (hb : blockAt blobs (blocks.insert number ptr) n = some b) :
      (n = number ∧ b = block) ∨ (n ≠ number ∧ blockAt blobs blocks n = some b) := by
    obtain ⟨q, bytes, hq, hread, hdecode⟩ := blockAt_some hb
    rw [OrdMap.get_insert] at hq
    split_ifs at hq with hn
    · obtain rfl := Option.some.inj hq
      have hbytes := Except.ok.inj ((BlobStore.read_of_holds h.sound hholds).symm.trans hread)
      rw [← hbytes, BlockData.fromBytes_toBytes hlen] at hdecode
      exact Or.inl ⟨hn, hdecode⟩
    · refine Or.inr ⟨hn, ?_⟩
      rw [← hb]
      exact (blockAt_congr hq (by rw [OrdMap.get_insert, if_neg hn]; exact hq) rfl).symm
  refine ⟨h.sound, ?_, ?_, ?_, ?_⟩
  · intro n q hq
    rw [OrdMap.get_insert] at hq
    split_ifs at hq with hn
    · obtain rfl := Option.some.inj hq
      exact Or.inl ⟨_, hholds⟩
    · exact h.settled hq
  · intro n b id hb hid
    rcases hload hb with ⟨-, rfl⟩ | ⟨-, hold⟩
    · exact hmarked id hid
    · exact h.marked hold hid
  · intro n b id hb hid
    rcases hload hb with ⟨-, rfl⟩ | ⟨-, hold⟩
    · exact hidle id hid
    · exact h.idle hold hid
  · intro n m b b' id hne hb hb' hid
    rcases hload hb with ⟨hn, rfl⟩ | ⟨-, hold⟩
    · rcases hload hb' with ⟨hm, rfl⟩ | ⟨-, hold'⟩
      · exact absurd (hn.trans hm.symm) hne
      · exact hnew id hid m b' hold'
    · rcases hload hb' with ⟨-, rfl⟩ | ⟨-, hold'⟩
      · exact fun hmem => hnew id hmem n b hold hid
      · exact h.apart hne hold hold' hid

theorem Pending.left {p : Pool} {xs ys : List TxId} (h : Pending p (xs ++ ys)) : Pending p xs :=
  h.subperm (List.sublist_append_left ..).subperm

theorem Pending.right {p q : Pool} {xs ys : List TxId} (h : Pending p (xs ++ ys))
    (hkept : ∀ id, id ∉ xs → q.entry id = p.entry id) : Pending q ys := by
  obtain ⟨-, hys, hdisjoint⟩ := List.nodup_append.mp h.nodup
  refine ⟨hys, ?_⟩
  intro id hid
  rw [hkept id (fun hx => hdisjoint id hx id hid rfl)]
  exact h.pending id (List.mem_append_right _ hid)

theorem commitBlock_rebuilds {evm : Evm W} {env : CallEnv} {ctx : BlockExecContext} {gasUsed : Nat}
    {block : BlockData} {drops : List QueuedDrop} {included : List StagedIncluded}
    {s t : StableState W} {p : Pool} (h : Consistent c counting s p)
    (hp : Pending p (drops.map QueuedDrop.txId ++ included.map StagedIncluded.txId))
    (hids : block.txIds = included.map StagedIncluded.txId)
    (hlen : block.txIds.length ≤ maxTxsPerBlock)
    (hrun : commitBlock c evm env ctx gasUsed block drops included s = some t) :
    ∃ u p', Consistent c counting u p' ∧ (∀ id e, p'.entry id = some e → p.entry id = some e) ∧
      t = rebuildPendingFeeIndexForBaseFee c u u.chainState.baseFee := by
  obtain ⟨p₁, hdrops⟩ := retires_applyDrops evm h hp.left
  have hpending := hp.right hdrops.kept
  obtain ⟨⟨persisted, s₂⟩, hpersist, hrun⟩ := Option.bind_eq_some_iff.mp hrun
  obtain ⟨⟨ptr, s₃⟩, hstore, hrun⟩ := Option.bind_eq_some_iff.mp hrun
  obtain ⟨hstaged, b₂, rfl, hk₂⟩ := persistAll_some hpersist
  obtain ⟨b₃, oldest, rfl, hk₃, hholds⟩ := storeBlock_some hstore
  have hpersisted : persisted.map (fun q => q.staged.txId) = included.map StagedIncluded.txId := by
    rw [← hstaged, List.map_map]
    rfl
  have h₃ : Consistent c counting
      { applyDrops c evm s drops with blobStore := b₃, oldestBlock := oldest } p₁ := by
    have hblobs := consistent_blobs hdrops.consistent (hk₂.trans hk₃)
    exact ⟨hblobs.indexed, hblobs.backed, hblobs.archived, hblobs.bounded, hblobs.counted⟩
  rw [← hpersisted] at hpending
  obtain ⟨p₄, h₄⟩ := retires_includeAll evm ctx.blockNumber h₃ hpending
  have hretired := retired_of_retires h₃ hpending h₄
  rw [hpersisted, ← hids] at hretired
  have hkept : (persisted.foldl (includeTx c evm ctx.blockNumber)
      { applyDrops c evm s drops with blobStore := b₃, oldestBlock := oldest }).blobStore.Holds ptr
        block.toBytes := by
    rw [h₄.same.blobStore]
    exact hholds
  have harchived := archived_insert ctx.blockNumber h₄.consistent.archived hkept hlen
    hretired.idle hretired.marked hretired.unarchived
  obtain rfl := Option.some.inj hrun
  refine ⟨_, p₄, ?_, fun id e hid => hdrops.sub (h₄.sub hid), rfl⟩
  exact ⟨h₄.consistent.indexed, h₄.consistent.backed, harchived, h₄.consistent.bounded,
    h₄.consistent.counted⟩

theorem consistent_commitBlock {evm : Evm W} {env : CallEnv} {ctx : BlockExecContext} {gasUsed : Nat}
    {block : BlockData} {drops : List QueuedDrop} {included : List StagedIncluded}
    {s t : StableState W} {p : Pool} (h : Consistent c counting s p)
    (hp : Pending p (drops.map QueuedDrop.txId ++ included.map StagedIncluded.txId))
    (hids : block.txIds = included.map StagedIncluded.txId)
    (hlen : block.txIds.length ≤ maxTxsPerBlock)
    (hrun : commitBlock c evm env ctx gasUsed block drops included s = some t) :
    ∃ p', Consistent c counting t p' := by
  obtain ⟨u, q, hu, -, rfl⟩ := commitBlock_rebuilds h hp hids hlen hrun
  exact consistent_rebuildPendingFee hu _

structure Prepared (c : Crypto) (counting : Prop) (p : Pool) (q : PrepareState W) : Prop where
  consistent : Consistent c counting q.state p
  pending : Pending p ((PreparedItem.drops q.prepared).map QueuedDrop.txId ++
    (PreparedItem.txs q.prepared).map PreparedTx.txId)
  few : q.prepared.length ≤ readyCandidateLimit

theorem prepared_of_select {s : StableState W} {p : Pool} (h : Consistent c counting s p)
    (env : CallEnv) (ctx : BlockExecContext) (softLimit start baseFee maxTxs : Nat) :
    Prepared c counting p (prepareCandidates c env ctx softLimit start
      (selectReadyCandidates c s baseFee maxTxs) ⟨s, 1, [], 0, .empty⟩) := by
  obtain ⟨⟨m, hstate⟩, ⟨l, hl, hids⟩⟩ := prepares_candidates (c := c) env ctx softLimit start
    (selectReadyCandidates c s baseFee maxTxs) ⟨s, 1, [], 0, .empty⟩
  rw [List.map_nil, List.nil_append] at hids
  refine ⟨?_, ?_, ?_⟩
  · rw [hstate]
    exact ⟨h.indexed, h.backed, h.archived, h.bounded, h.counted⟩
  · have hselected := pending_selectReady (c := c) h.indexed baseFee maxTxs
    refine hselected.subperm ?_
    refine (perm_preparedIds _).subperm.trans ?_
    rw [hids]
    exact hl.subperm
  · have hlen := congrArg List.length hids
    rw [List.length_map] at hlen
    rw [hlen]
    exact le_trans hl.length_le (length_selectReady s baseFee maxTxs)

theorem included_length_le {evm : Evm W} {q : PrepareState W} {x x' : ExecState evm}
    (hx : Executes x x' (PreparedItem.txs q.prepared))
    (hdrops : x.drops = PreparedItem.drops q.prepared) (hincluded : x.included = []) :
    x'.included.length ≤ q.prepared.length := by
  have hlen := hx.ids.length_le
  have hprepared := (perm_preparedIds q.prepared).length_eq
  rw [hdrops, hincluded] at hlen
  simp only [List.length_append, List.length_map, List.map_nil, List.nil_append] at hlen hprepared
  omega

theorem consistent_produceBlock {evm : Evm W} {env : CallEnv} {maxTxs : Nat} {s t : StableState W}
    {p : Pool} {r : Except ChainError ProduceBlockOutcome} (h : Consistent c counting s p)
    (hrun : produceBlock c evm env maxTxs s = some (r, t)) : ∃ p', Consistent c counting t p' := by
  rw [produceBlock] at hrun
  split_ifs at hrun with hmax
  · obtain ⟨-, rfl⟩ := Prod.mk.inj (Option.some.inj hrun)
    exact ⟨p, h⟩
  · dsimp only at hrun
    have hprepared := prepared_of_select h env
      ⟨saturatingAdd u64Max s.head.number 1, max (saturatingAdd u64Max s.head.timestamp 1) env.now,
        s.chainState.baseFee, s.chainState.blockGasLimit⟩
      s.chainState.updateInstructionSoftLimit (env.counter 0) s.chainState.baseFee maxTxs
    generalize prepareCandidates c env _ _ _ _ _ = q at hrun hprepared
    split_ifs at hrun with hempty hnone
    · obtain ⟨-, rfl⟩ := Prod.mk.inj (Option.some.inj hrun)
      exact ⟨p, h⟩
    · obtain ⟨-, rfl⟩ := Prod.mk.inj (Option.some.inj hrun)
      obtain ⟨p', hp'⟩ := retires_applyDrops evm hprepared.consistent hprepared.pending.left
      exact ⟨p', hp'.consistent⟩
    · split at hrun
      · obtain ⟨-, rfl⟩ := Prod.mk.inj (Option.some.inj hrun)
        exact ⟨p, hprepared.consistent⟩
      · rename_i x hexec
        have hx := executes_staged hexec
        have hpending : Pending p (x.drops.map QueuedDrop.txId ++
            x.included.map StagedIncluded.txId) := hprepared.pending.subperm hx.ids
        split_ifs at hrun with hincluded
        · obtain ⟨-, rfl⟩ := Prod.mk.inj (Option.some.inj hrun)
          obtain ⟨p', hp'⟩ := retires_applyDrops evm hprepared.consistent hpending.left
          exact ⟨p', hp'.consistent⟩
        · have hworld (world : W) : Consistent c counting { q.state with world := world } p :=
            ⟨hprepared.consistent.indexed, hprepared.consistent.backed, hprepared.consistent.archived,
              hprepared.consistent.bounded, hprepared.consistent.counted⟩
          split at hrun
          · obtain ⟨-, rfl⟩ := Prod.mk.inj (Option.some.inj hrun)
            exact ⟨p, hworld _⟩
          · obtain ⟨u, hcommit, heq⟩ := Option.map_eq_some_iff.mp hrun
            obtain ⟨-, rfl⟩ := Prod.mk.inj heq
            refine consistent_commitBlock (hworld _) hpending rfl ?_ hcommit
            change (x.included.map StagedIncluded.txId).length ≤ maxTxsPerBlock
            rw [List.length_map]
            exact le_trans (included_length_le hx rfl rfl) (le_trans hprepared.few (by decide))

end Kasane.Chain
