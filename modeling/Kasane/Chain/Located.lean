import Kasane.Chain.Window

namespace Kasane.Chain

open BigEndian Codec Word Blob

variable {W : Type} {c : Crypto} {evm : Evm W}

-- the ring only ever forgets where a dropped transaction is
theorem locs_pushDroppedRing (s : StableState W) (id j : TxId) :
    (pushDroppedRing s id).txLocs.get j = s.txLocs.get j ∨
      ((pushDroppedRing s id).txLocs.get j = none ∧
        ∃ loc, s.txLocs.get j = some loc ∧ loc.kind = .dropped) := by
  rw [pushDroppedRing]
  dsimp only
  split
  · exact .inl rfl
  · split
    · exact .inl rfl
    · rename_i evicted hget
      split
      · rename_i loc hloc
        split_ifs with hkind
        · have hfound := (Option.filter_eq_some_iff.mp hloc).1
          by_cases hj : j = evicted
          · subst hj
            exact .inr ⟨(OrdMap.get_remove ..).trans (if_pos rfl), loc, hfound, hkind⟩
          · exact .inl ((OrdMap.get_remove ..).trans (if_neg hj))
        · exact .inl rfl
      · exact .inl rfl

theorem locs_markDropped (s : StableState W) (id j : TxId) (code : DropCode) :
    (markDroppedAndPurgePayload c s id code).txLocs.get j =
        (s.txLocs.insert id (.dropped code.toNat)).get j ∨
      ((markDroppedAndPurgePayload c s id code).txLocs.get j = none ∧
        ∃ loc, (s.txLocs.insert id (.dropped code.toNat)).get j = some loc ∧
          loc.kind = .dropped) := by
  obtain ⟨keys, index, hfee⟩ := removePendingFeeIndexByTxId_eq s id
  obtain ⟨hashes, hhashes⟩ := removeEthTxHashIndexForTxId_eq c
    { s with pendingFeeKeyByTxId := keys, pendingFeeIndex := index } id
  rw [markDroppedAndPurgePayload, hfee, hhashes]
  exact locs_pushDroppedRing _ id j

theorem included_markDropped {s : StableState W} {id : TxId} {code : DropCode} {j : TxId}
    {n i : Nat} (hqueued : ∃ loc, s.txLocs.get id = some loc ∧ loc.kind = .queued) :
    (markDroppedAndPurgePayload c s id code).txLocs.get j = some (.included n i) ↔
      s.txLocs.get j = some (.included n i) := by
  obtain ⟨loc, hloc, hkind⟩ := hqueued
  have hsame : (s.txLocs.insert id (.dropped code.toNat)).get j = some (.included n i) ↔
      s.txLocs.get j = some (.included n i) := by
    rw [OrdMap.get_insert]
    split_ifs with hj
    · subst hj
      constructor
      · intro h
        exact absurd (Option.some.inj h) (by simp [TxLoc.dropped, TxLoc.included])
      · intro h
        obtain rfl := Option.some.inj (hloc.symm.trans h)
        exact absurd hkind (by simp [TxLoc.included])
    · exact Iff.rfl
  rcases locs_markDropped (c := c) s id j code with heq | ⟨hnone, old, hold, hdropped⟩
  · rw [heq]
    exact hsame
  · rw [hnone, ← hsame, hold]
    constructor
    · intro h
      exact absurd h (by simp)
    · intro h
      obtain rfl := Option.some.inj h
      exact absurd hdropped (by simp [TxLoc.included])

-- which transactions count as included, and what is known to have been seen
structure SameIncluded (s t : StableState W) : Prop where
  included : ∀ id n i, t.txLocs.get id = some (.included n i) ↔ s.txLocs.get id = some (.included n i)
  seen : ∀ id, (s.seenTx.get id).isSome → (t.seenTx.get id).isSome

theorem SameIncluded.trans {s t u : StableState W} (h : SameIncluded s t) (h' : SameIncluded t u) :
    SameIncluded s u :=
  ⟨fun id n i => (h'.included id n i).trans (h.included id n i),
    fun id hid => h'.seen id (h.seen id hid)⟩

def SeenIncluded (s : StableState W) : Prop :=
  ∀ id n i, s.txLocs.get id = some (.included n i) → (s.seenTx.get id).isSome

theorem SeenIncluded.same {s t : StableState W} (h : SeenIncluded s) (hsame : SameIncluded s t) :
    SeenIncluded t :=
  fun id n i hloc => hsame.seen id (h id n i ((hsame.included id n i).mp hloc))

theorem sameIncluded_step {s t : StableState W} (h : SeenIncluded s) (hstep : PoolStep c s t) :
    SameIncluded s t := by
  cases hstep with
  | touched nonces m => exact ⟨fun _ _ _ => Iff.rfl, fun _ hid => hid⟩
  | @dropped p id e hcons hid nonces code =>
      obtain ⟨keys, index, hashes, locs, ring, ringState, heq⟩ :=
        markDropped_eq (c := c) { unlinked c s id e with senderExpectedNonce := nonces } id code
      refine ⟨fun j n i => included_markDropped (hcons.backed.queued hid), ?_⟩
      rw [dropped, heq]
      exact fun _ hj => hj
  | @queued p sender nonce price envelope _ _ hcons hfresh hvacant _ _ =>
      obtain ⟨hashes, queueMeta, chainState, heq⟩ :=
        enqueuePending_eq (c := c) hcons.indexed hvacant nonce price envelope
      rw [heq]
      refine ⟨?_, ?_⟩
      · intro id n i
        dsimp only
        rw [OrdMap.get_insert]
        split_ifs with hid
        · subst hid
          constructor
          · intro hloc
            exact absurd (Option.some.inj hloc) (by simp [TxLoc.queued, TxLoc.included])
          · intro hloc
            exact absurd (h _ n i hloc) (by simp [hfresh])
        · exact Iff.rfl
      · intro id hid
        dsimp only
        rw [OrdMap.get_insert]
        split_ifs
        · rfl
        · exact hid

theorem sameIncluded_steps {s t : StableState W} (h : SeenIncluded s) (hsteps : PoolSteps c s t) :
    SameIncluded s t := by
  induction hsteps with
  | refl => exact ⟨fun _ _ _ => Iff.rfl, fun _ hid => hid⟩
  | tail _ hstep ih => exact ih.trans (sameIncluded_step (h.same ih) hstep)

-- every record of a transaction belongs to a stored block that lists it
structure Located (s : StableState W) : Prop where
  seen : SeenIncluded s
  owned : ∀ id, (s.receipts.get id).isSome ∨ (s.txIndex.get id).isSome ∨
    (s.internalTraces.get id).isSome → ∃ n i, s.txLocs.get id = some (.included n i)
  above : ∀ id n i, s.txLocs.get id = some (.included n i) →
    s.pruneState.nextPruneBlock ≤ n ∧ 1 ≤ n ∧ n ≤ s.head.number
  listed : ∀ id n i block, s.txLocs.get id = some (.included n i) → n < u64Max →
    loadBlock s n = some block → id ∈ block.txIds

theorem located_init (world : W) : Located (StableState.init world) where
  seen := fun _ _ _ h => absurd h (by simp [StableState.init])
  owned := fun _ h => absurd h (by simp [StableState.init])
  above := fun _ _ _ h => absurd h (by simp [StableState.init])
  listed := fun _ _ _ _ h => absurd h (by simp [StableState.init])

theorem loadBlock_of_view {s t : StableState W} (hview : t.exportView = s.exportView) (n : Nat) :
    loadBlock t n = loadBlock s n := by
  have hblobs : t.blobStore = s.blobStore := congrArg ExportView.blobStore hview
  have hblocks : t.blocks = s.blocks := congrArg ExportView.blocks hview
  rw [loadBlock_eq, loadBlock_eq, hblobs, hblocks]

theorem Located.same {s t : StableState W} (h : Located s) (hview : t.exportView = s.exportView)
    (hsame : SameIncluded s t) : Located t := by
  have hreceipts : t.receipts = s.receipts := congrArg ExportView.receipts hview
  have hindex : t.txIndex = s.txIndex := congrArg ExportView.txIndex hview
  have htraces : t.internalTraces = s.internalTraces := congrArg ExportView.internalTraces hview
  have hstate : t.pruneState = s.pruneState := congrArg ExportView.pruneState hview
  have hhead : t.head = s.head := congrArg ExportView.head hview
  refine ⟨h.seen.same hsame, ?_, ?_, ?_⟩
  · intro id hid
    rw [hreceipts, hindex, htraces] at hid
    obtain ⟨n, i, hloc⟩ := h.owned id hid
    exact ⟨n, i, (hsame.included id n i).mpr hloc⟩
  · intro id n i hloc
    rw [hstate, hhead]
    exact h.above id n i ((hsame.included id n i).mp hloc)
  · intro id n i block hloc hn hload
    rw [loadBlock_of_view hview] at hload
    exact h.listed id n i block ((hsame.included id n i).mp hloc) hn hload

theorem Located.steps {s t : StableState W} (h : Located s) (hsteps : PoolSteps c s t) :
    Located t :=
  h.same (offQueue_steps hsteps).view (sameIncluded_steps h.seen hsteps)

theorem shelf_placeAll {persisted : List StagedPersist} {f : Slot → Option BlobPtr} {slot : Slot}
    (h : ∀ q ∈ persisted, slot ≠ .receipt q.staged.txId ∧ slot ≠ .txIndex q.staged.txId ∧
      slot ≠ .internalTraces q.staged.txId) : persisted.foldl placeTx f slot = f slot := by
  induction persisted generalizing f with
  | nil => rfl
  | cons q persisted ih =>
      obtain ⟨⟨hreceipt, hindex, htraces⟩, hrest⟩ := List.forall_mem_cons.mp h
      rw [List.foldl_cons, ih hrest, placeTx]
      cases q.internalTracesPtr with
      | none => simp [hreceipt, hindex]
      | some ptr => simp [hreceipt, hindex, htraces]

theorem Laid.shelf_other {number : Nat} {block : BlockData} {included : List StagedIncluded}
    {s t : StableState W} {persisted : List StagedPersist} {ptr : BlobPtr}
    (h : Laid number block included s t persisted ptr) {slot : Slot} (hblock : slot ≠ .block number)
    (hids : ∀ id ∈ included.map StagedIncluded.txId,
      slot ≠ .receipt id ∧ slot ≠ .txIndex id ∧ slot ≠ .internalTraces id) :
    t.shelf slot = s.shelf slot := by
  rw [h.shelf, Function.update_apply, if_neg hblock]
  refine shelf_placeAll ?_
  intro q hq
  refine hids _ ?_
  rw [← h.staged, List.map_map]
  exact List.mem_map.mpr ⟨q, hq, rfl⟩

theorem Laid.loads_other {number n : Nat} {block : BlockData} {included : List StagedIncluded}
    {s t : StableState W} {persisted : List StagedPersist} {ptr : BlobPtr} (hs : Shelved s)
    (h : Laid number block included s t persisted ptr) (hn : n ≠ number) :
    loadBlock t n = loadBlock s n := by
  have hslot : Slot.block n ≠ .block number := by simpa using hn
  have hblock : t.blocks.get n = s.blocks.get n := h.shelf_other hslot (by simp)
  cases hptr : s.blocks.get n with
  | none =>
      rw [loadBlock_none_of_blocks hptr, loadBlock_none_of_blocks (hblock.trans hptr)]
  | some q =>
      obtain ⟨data, hheld⟩ := hs.held (.block n) q hptr
      exact loadBlock_of_holds hs.sound h.tenants.sound hptr (hblock.trans hptr) hheld
        (h.holds q data hheld)

theorem laid_committed {env : CallEnv} {maxTxs : Nat} {s t : StableState W}
    {outcome : ProduceBlockOutcome} {x : ExecState evm} {root : evm.Root} {world : W}
    (h : Shelved s) (hc : Committed c evm env maxTxs s t outcome x root world) :
    ∃ persisted ptr, Laid (blockContext env s).blockNumber outcome.block x.included s t persisted
      ptr := by
  obtain ⟨⟨m, hstate⟩, -⟩ := prepareBlock_prepares c env maxTxs s
  have hcommit := hc.committed
  rw [hstate] at hcommit
  obtain ⟨persisted, ptr, hlaid⟩ := laid_commitBlock (by exact h) hcommit
  exact ⟨persisted, ptr, hlaid.staged, hlaid.shelf, hlaid.tenants, hlaid.holds, hlaid.laid,
    hlaid.block⟩

theorem Located.committed {env : CallEnv} {maxTxs : Nat} {s t u : StableState W}
    {outcome : ProduceBlockOutcome} {x : ExecState evm} {root : evm.Root} {world w : W}
    (h : Located s) (hw : Window s)
    (hc : Committed c evm env maxTxs s t outcome x root world)
    (hlaying : Laying c (blockContext env s).blockNumber x.included { s with world := w } u t) :
    Located t := by
  have hcommits := hc.commits
  have hlays := hlaying.lays
  have hpool : SameIncluded s u := by
    have hstart : SameIncluded s { s with world := w } := ⟨fun _ _ _ => Iff.rfl, fun _ hid => hid⟩
    exact hstart.trans (sameIncluded_steps (h.seen.same hstart) hlaying.upkeep)
  obtain ⟨p, hcons, hpending⟩ := hlaying.consistent
  obtain ⟨persisted, ptr, hlaid⟩ := laid_committed hw.shelved hc
  have hnumber : (blockContext env s).blockNumber = saturatingAdd u64Max s.head.number 1 := rfl
  have hhead : t.head.number = (blockContext env s).blockNumber :=
    congrArg Head.number hcommits.head
  have hstate := hcommits.pruneState
  have hle := hw.clean.head_le
  have hnext := hw.next_le
  have hpos : 0 < u64Max := by decide
  generalize (blockContext env s).blockNumber = number at *
  rw [saturatingAdd] at hnumber
  have hcase (id : TxId) (n i : Nat) (hloc : t.txLocs.get id = some (.included n i)) :
      (n = number ∧ id ∈ x.included.map StagedIncluded.txId) ∨
        s.txLocs.get id = some (.included n i) := by
    by_cases hmem : id ∈ x.included.map StagedIncluded.txId
    · obtain ⟨staged, hstaged, rfl⟩ := List.mem_map.mp hmem
      rw [hlays.located staged hstaged] at hloc
      have hsame := congrArg TxLoc.blockNumber (Option.some.inj hloc)
      exact .inl ⟨hsame.symm, hmem⟩
    · rw [hlays.others id hmem] at hloc
      exact .inr ((hpool.included id n i).mp hloc)
  refine ⟨?_, ?_, ?_, ?_⟩
  · intro id n i hloc
    rw [hlays.seenTx]
    rcases hcase id n i hloc with ⟨-, hmem⟩ | hold
    · obtain ⟨e, he⟩ := hpending.pending id hmem
      obtain ⟨mark, hmark⟩ := hcons.backed.marked he
      rw [hmark]
      rfl
    · exact hpool.seen id (h.seen id n i hold)
  · intro id hid
    by_cases hmem : id ∈ x.included.map StagedIncluded.txId
    · obtain ⟨staged, hstaged, rfl⟩ := List.mem_map.mp hmem
      exact ⟨number, _, hlays.located staged hstaged⟩
    · have hother (slot : Slot) (hblock : slot ≠ .block number)
          (hslot : slot = .receipt id ∨ slot = .txIndex id ∨ slot = .internalTraces id) :
          t.shelf slot = s.shelf slot := by
        refine hlaid.shelf_other hblock ?_
        intro j hj
        have hne : id ≠ j := fun heq => hmem (heq ▸ hj)
        rcases hslot with rfl | rfl | rfl <;> simp [hne]
      have hreceipt : t.receipts.get id = s.receipts.get id := hother (.receipt id) (by simp) (by simp)
      have hindex : t.txIndex.get id = s.txIndex.get id := hother (.txIndex id) (by simp) (by simp)
      have htraces : t.internalTraces.get id = s.internalTraces.get id :=
        hother (.internalTraces id) (by simp) (by simp)
      rw [hreceipt, hindex, htraces] at hid
      obtain ⟨n, i, hloc⟩ := h.owned id hid
      refine ⟨n, i, ?_⟩
      rw [hlays.others id hmem]
      exact (hpool.included id n i).mpr hloc
  · intro id n i hloc
    rw [hstate, hhead]
    rcases hcase id n i hloc with ⟨rfl, -⟩ | hold
    · omega
    · have habove := h.above id n i hold
      omega
  · intro id n i block hloc hn hload
    rcases hcase id n i hloc with ⟨rfl, hmem⟩ | hold
    · have hnew := hc.loads hw.shelved.sound
      rw [hhead, hload] at hnew
      obtain rfl := Option.some.inj hnew
      rw [hc.txIds]
      exact hmem
    · have habove := h.above id n i hold
      rw [hlaid.loads_other hw.shelved (by omega)] at hload
      exact h.listed id n i block hold hn hload

theorem located_produceBlock {env : CallEnv} {maxTxs : Nat} {s t : StableState W}
    {r : Except ChainError ProduceBlockOutcome} {p : Pool} (h : Located s) (hw : Window s)
    (hp : Consistent c False s p) (hrun : produceBlock c evm env maxTxs s = some (r, t)) :
    Located t := by
  cases steps_produceBlock hp hrun with
  | kept e w steps =>
      have hs : Located { s with world := w } :=
        h.same rfl ⟨fun _ _ _ => Iff.rfl, fun _ hid => hid⟩
      exact hs.steps steps
  | laid hc laying => exact h.committed hw hc laying

theorem Located.pruned {retain : Nat} {s t : StableState W} (h : Located s) (hw : Window s)
    (hp : Prunes c retain s t) (hnext : t.pruneState.nextPruneBlock ≤ s.head.number) :
    Located t := by
  have hrecord (id : TxId) : t.txRecord id = .none ∨ t.txRecord id = s.txRecord id ∧
      ¬ StoredBelow s t.pruneState.nextPruneBlock id := by
    by_cases hbelow : StoredBelow s t.pruneState.nextPruneBlock id
    · exact .inl (hp.trimmed.gone id hbelow)
    · exact .inr ⟨hp.trimmed.kept id hbelow, hbelow⟩
  have hhead : t.head = s.head := congrArg UnprunedView.head hp.trimmed.unpruned
  have hkept (id : TxId) (n i : Nat) (hloc : t.txLocs.get id = some (.included n i)) :
      s.txLocs.get id = some (.included n i) ∧ t.seenTx.get id = s.seenTx.get id ∧
        ¬ StoredBelow s t.pruneState.nextPruneBlock id := by
    rcases hrecord id with hnone | ⟨hsame, hbelow⟩
    · have hgone : t.txLocs.get id = none := congrArg TxRecord.loc hnone
      exact absurd (hgone.symm.trans hloc) (by simp)
    · exact ⟨(congrArg TxRecord.loc hsame).symm.trans hloc, congrArg TxRecord.seen hsame, hbelow⟩
  have habove (id : TxId) (n i : Nat) (hloc : t.txLocs.get id = some (.included n i)) :
      t.pruneState.nextPruneBlock ≤ n := by
    obtain ⟨hold, -, hbelow⟩ := hkept id n i hloc
    obtain ⟨hlow, hone, hhigh⟩ := h.above id n i hold
    by_contra hlt
    obtain ⟨ptr, hptr⟩ := Option.isSome_iff_exists.mp (hw.present n hone hlow hhigh)
    obtain ⟨block, hload⟩ := hw.loads n ptr hptr
    have hle := hw.clean.head_le
    exact hbelow ⟨n, block, not_le.mp hlt, hload, h.listed id n i block hold (by omega) hload⟩
  refine ⟨?_, ?_, ?_, ?_⟩
  · intro id n i hloc
    obtain ⟨hold, hseen, -⟩ := hkept id n i hloc
    rw [hseen]
    exact h.seen id n i hold
  · intro id hid
    rcases hrecord id with hnone | ⟨hsame, -⟩
    · have hreceipt : t.receipts.get id = none := congrArg TxRecord.receipt hnone
      have hindex : t.txIndex.get id = none := congrArg TxRecord.txIndex hnone
      have htraces : t.internalTraces.get id = none := congrArg TxRecord.internalTraces hnone
      exact absurd hid (by simp [hreceipt, hindex, htraces])
    · have hreceipt : t.receipts.get id = s.receipts.get id := congrArg TxRecord.receipt hsame
      have hindex : t.txIndex.get id = s.txIndex.get id := congrArg TxRecord.txIndex hsame
      have htraces : t.internalTraces.get id = s.internalTraces.get id :=
        congrArg TxRecord.internalTraces hsame
      rw [hreceipt, hindex, htraces] at hid
      obtain ⟨n, i, hloc⟩ := h.owned id hid
      exact ⟨n, i, (congrArg TxRecord.loc hsame).trans hloc⟩
  · intro id n i hloc
    obtain ⟨-, hone, hhigh⟩ := h.above id n i (hkept id n i hloc).1
    rw [hhead]
    exact ⟨habove id n i hloc, hone, hhigh⟩
  · intro id n i block hloc hn hload
    rw [hp.trimmed.loads hw.shelved (habove id n i hloc)] at hload
    exact h.listed id n i block (hkept id n i hloc).1 hn hload

theorem located_pruneBlocks (retain maxOps : Nat) {s : StableState W} (h : Located s)
    (hw : Window s) : Located (pruneBlocks c retain maxOps s).2 := by
  have ht : Window (pruneBlocks c retain maxOps s).2 := window_pruneBlocks retain maxOps hw
  by_cases hlimits : retain = 0 ∨ maxOps = 0
  · rw [pruneBlocks, if_pos hlimits]
    exact h
  · obtain ⟨result, t, heq, hprunes⟩ := hw.prunes (c := c) hlimits
    rw [heq] at ht ⊢
    refine h.pruned hw hprunes ?_
    have hhead : t.head = s.head := congrArg UnprunedView.head hprunes.trimmed.unpruned
    rw [← hhead]
    exact ht.next_le

end Kasane.Chain
