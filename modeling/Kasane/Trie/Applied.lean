import Kasane.Trie.JournalRoot

namespace Kasane.Trie

open BigEndian Patricia JournalBuilder Chain Exec Listing

variable {H : Type} [LinearOrder H] {codec : StateCodec H} {b b' : JournalBuilder H}

namespace NodeStore

variable {s s' : NodeStore H}

def bytesAt (s : NodeStore H) (hash : H) : Option Bytes := (s.nodeDb.get hash).map NodeRecord.rlp

theorem bytesAt_putRecord (s : NodeStore H) (e : H × Bytes) (hash : H) :
    (s.putRecord e).bytesAt hash = if hash = e.1 then some e.2 else s.bytesAt hash := by
  have hinsert : bytesAt { s with nodeDb := s.nodeDb.insert e.1 ⟨0, e.2⟩ } hash =
      if hash = e.1 then some e.2 else s.bytesAt hash := by
    rw [bytesAt]
    dsimp only
    rw [OrdMap.get_insert]
    split_ifs with hhash
    · rfl
    · rfl
  rw [putRecord]
  cases hget : s.nodeDb.get e.1 with
  | none => exact hinsert
  | some existing =>
      dsimp only
      by_cases hsame : existing.rlp = e.2
      · rw [if_pos hsame]
        by_cases hhash : hash = e.1
        · rw [if_pos hhash, hhash, bytesAt, hget, ← hsame]
          rfl
        · rw [if_neg hhash]
      · rw [if_neg hsame]
        exact hinsert

theorem bytesAt_putRecords (s : NodeStore H) (records : OrdMap H Bytes) (hash : H) :
    (records.entries.foldl putRecord s).bytesAt hash =
      (records.get hash).or (s.bytesAt hash) := by
  have hfold := OrdMap.get_foldl_keyed (fun (s : NodeStore H) hash => s.bytesAt hash) putRecord
    (fun _ raw => some raw) (fun s e => by rw [bytesAt_putRecord, if_pos rfl])
    (fun s e hash hne => by rw [bytesAt_putRecord, if_neg hne]) records.keys_nodup s hash
  have hget : OrdMap.lookupIn hash records.entries = records.get hash := rfl
  rw [hfold, hget]
  cases records.get hash <;> rfl

theorem bytesAt_insert (s : NodeStore H) {hash : H} {record : NodeRecord}
    (h : s.nodeDb.get hash = some record) (refcnt : Nat) (other : H) :
    ((s.nodeDb.insert hash { record with refcnt := refcnt }).get other).map NodeRecord.rlp =
      s.bytesAt other := by
  rw [OrdMap.get_insert]
  by_cases hsame : other = hash
  · rw [if_pos hsame, hsame, bytesAt, h]
    rfl
  · rw [if_neg hsame]
    rfl

theorem bytesAt_countRecord (emptyRoot : H) (s : NodeStore H) (e : H × Int) (hash : H) :
    (s.countRecord emptyRoot e).bytesAt hash = s.bytesAt hash := by
  rw [countRecord]
  by_cases hzero : e.2 = 0
  · rw [if_pos hzero]
  · rw [if_neg hzero]
    cases hget : s.nodeDb.get e.1 with
    | none =>
        dsimp only
        split_ifs <;> rfl
    | some record =>
        dsimp only
        split_ifs
        · exact bytesAt_insert s hget _ hash
        · exact bytesAt_insert s hget _ hash

theorem bytesAt_countRecords (emptyRoot : H) (s : NodeStore H) (es : List (H × Int)) (hash : H) :
    (es.foldl (countRecord emptyRoot) s).bytesAt hash = s.bytesAt hash := by
  induction es generalizing s with
  | nil => rfl
  | cons e es ih => rw [List.foldl_cons, ih, bytesAt_countRecord]

theorem bytesAt_gcStep (s : NodeStore H) {hash : H} {raw : Bytes}
    (h : s.gcStep.bytesAt hash = some raw) : s.bytesAt hash = some raw := by
  have hkept (s : NodeStore H) (dropped : H) (h : (s.collect dropped).bytesAt hash = some raw) :
      s.bytesAt hash = some raw := by
    rw [collect] at h
    cases hget : s.nodeDb.get dropped with
    | none =>
        rw [hget] at h
        exact h
    | some record =>
        rw [hget] at h
        dsimp only at h
        split_ifs at h
        · rw [bytesAt] at h
          dsimp only at h
          rw [OrdMap.get_remove] at h
          split_ifs at h
          · cases h
          · exact h
        · exact h
  rw [gcStep] at h
  cases hqueued : s.gcQueue.get s.gcState.dequeueSeq with
  | none =>
      rw [hqueued] at h
      exact h
  | some dropped =>
      rw [hqueued] at h
      exact hkept { s with gcQueue := s.gcQueue.remove s.gcState.dequeueSeq } dropped h

theorem bytesAt_runGcTick (maxSteps : Nat) {s : NodeStore H} {hash : H} {raw : Bytes}
    (h : (runGcTick maxSteps s).bytesAt hash = some raw) : s.bytesAt hash = some raw := by
  induction maxSteps generalizing s with
  | zero => exact h
  | succ maxSteps ih =>
      rw [runGcTick] at h
      split_ifs at h
      · exact bytesAt_gcStep s (ih h)
      · exact h

-- the records of a journal are put, and a record that stays keeps its bytes
theorem bytesAt_applyJournal (emptyRoot : H) (s : NodeStore H) (journal : JournalUpdate H) {hash : H}
    {raw : Bytes} (h : (s.applyJournal emptyRoot journal).bytesAt hash = some raw) :
    (journal.newNodeRecords.get hash).or (s.bytesAt hash) = some raw := by
  rw [← bytesAt_putRecords, ← bytesAt_countRecords emptyRoot]
  exact bytesAt_runGcTick 256 h

-- no record is counted yet, and nothing waits to be collected
structure Fresh (s : NodeStore H) : Prop where
  uncounted : ∀ hash record, s.nodeDb.get hash = some record → record.refcnt = 0
  idle : s.gcState.len = 0

theorem fresh_putRecord (h : s.Fresh) (e : H × Bytes) : (s.putRecord e).Fresh := by
  have hinsert : Fresh { s with nodeDb := s.nodeDb.insert e.1 ⟨0, e.2⟩ } := by
    refine ⟨fun hash record hget => ?_, h.idle⟩
    dsimp only at hget
    rw [OrdMap.get_insert] at hget
    split_ifs at hget
    · obtain rfl := Option.some.inj hget
      rfl
    · exact h.uncounted hash record hget
  rw [putRecord]
  cases hget : s.nodeDb.get e.1 with
  | none => exact hinsert
  | some existing =>
      dsimp only
      split_ifs
      · exact h
      · exact hinsert

theorem fresh_putRecords (es : List (H × Bytes)) (h : s.Fresh) : (es.foldl putRecord s).Fresh := by
  induction es generalizing s with
  | nil => exact h
  | cons e es ih => exact ih (fresh_putRecord h e)

theorem idle_countRecord (emptyRoot : H) {e : H × Int} (hidle : s.gcState.len = 0)
    (huncounted : ∀ record, s.nodeDb.get e.1 = some record → record.refcnt = 0) :
    (s.countRecord emptyRoot e).gcState.len = 0 ∧
      ∀ hash, hash ≠ e.1 → (s.countRecord emptyRoot e).nodeDb.get hash = s.nodeDb.get hash := by
  rw [countRecord]
  by_cases hzero : e.2 = 0
  · rw [if_pos hzero]
    exact ⟨hidle, fun _ _ => rfl⟩
  · rw [if_neg hzero]
    cases hget : s.nodeDb.get e.1 with
    | none =>
        dsimp only
        split_ifs
        · exact ⟨hidle, fun _ _ => rfl⟩
        · exact ⟨hidle, fun _ _ => rfl⟩
    | some record =>
        have hcount : ¬ (0 < record.refcnt ∧ nextCount record.refcnt e.2 = 0) := by
          rw [huncounted record hget]
          exact fun h => Nat.lt_irrefl 0 h.1
        dsimp only
        rw [if_neg hcount]
        exact ⟨hidle, fun hash hne => (OrdMap.get_insert ..).trans (if_neg hne)⟩

theorem idle_countRecords (emptyRoot : H) {es : List (H × Int)} (hnodup : (es.map Prod.fst).Nodup)
    (hidle : s.gcState.len = 0) (huncounted : ∀ e ∈ es, ∀ record, s.nodeDb.get e.1 = some record →
      record.refcnt = 0) : (es.foldl (countRecord emptyRoot) s).gcState.len = 0 := by
  induction es generalizing s with
  | nil => exact hidle
  | cons e es ih =>
      rw [List.map_cons, List.nodup_cons] at hnodup
      obtain ⟨hstep, hother⟩ := idle_countRecord emptyRoot hidle (huncounted e List.mem_cons_self)
      refine ih hnodup.2 hstep (fun e' he' record hget => ?_)
      have hne : e'.1 ≠ e.1 := fun heq => hnodup.1 (List.mem_map.mpr ⟨e', he', heq⟩)
      rw [hother e'.1 hne] at hget
      exact huncounted e' (List.mem_cons_of_mem _ he') record hget

-- on a store without counts the collector has nothing to do
theorem bytesAt_applyFresh (emptyRoot : H) (h : s.Fresh) (journal : JournalUpdate H) (hash : H) :
    (s.applyJournal emptyRoot journal).bytesAt hash =
      (journal.newNodeRecords.get hash).or (s.bytesAt hash) := by
  have hfresh := fresh_putRecords journal.newNodeRecords.entries h
  have hidle := idle_countRecords emptyRoot
    (mergeAnchorDelta journal.nodeDeltaCounts journal.anchorDelta).keys_nodup hfresh.idle
    (fun _ _ record hget => hfresh.uncounted _ record hget)
  have htick (s : NodeStore H) (hs : s.gcState.len = 0) : runGcTick 256 s = s := by
    rw [runGcTick, hs]
    exact if_neg (Nat.lt_irrefl 0)
  have happly : (s.applyJournal emptyRoot journal).bytesAt hash =
      ((mergeAnchorDelta journal.nodeDeltaCounts journal.anchorDelta).entries.foldl
        (countRecord emptyRoot) (journal.newNodeRecords.entries.foldl putRecord s)).bytesAt hash := by
    rw [applyJournal, htick _ hidle]
    rfl
  rw [happly, bytesAt_countRecords, bytesAt_putRecords]

end NodeStore

theorem record_new (s : NodeStore H) (hash : H) :
    (JournalBuilder.new s.nodeDb).record hash = s.bytesAt hash := rfl

theorem record_eq (b : JournalBuilder H) (hash : H) :
    b.record hash = (b.newNodeRecords.get hash).or ((b.nodeDb.get hash).map NodeRecord.rlp) := by
  rw [JournalBuilder.record]
  cases b.newNodeRecords.get hash <;> rfl

-- the hashes met on the way down from a pointer
inductive Reaches (codec : NodeCodec H) (b : JournalBuilder H) : RlpNode H → H → Prop
  | here (hash : H) : Reaches codec b (.word hash) hash
  | through {p q : RlpNode H} {node : PathNode H} {hash : H}
      (resolved : b.resolvePtr codec p = some (.ofPath node)) (points : node.Points q)
      (reaches : Reaches codec b q hash) : Reaches codec b p hash

def Spared (codec : NodeCodec H) (b b' : JournalBuilder H) (p : RlpNode H) : Prop :=
  ∀ hash, Reaches codec b p hash → b'.record hash = b.record hash

theorem Spared.resolvePtr {codec : NodeCodec H} {p : RlpNode H} (h : Spared codec b b' p) :
    b'.resolvePtr codec p = b.resolvePtr codec p := by
  cases p with
  | inline raw => rfl
  | word hash => rw [JournalBuilder.resolvePtr, h hash (.here hash), JournalBuilder.resolvePtr]

theorem Spared.below {codec : NodeCodec H} {p q : RlpNode H} {node : PathNode H}
    (h : Spared codec b b' p) (hresolved : b.resolvePtr codec p = some (.ofPath node))
    (hpoints : node.Points q) : Spared codec b b' q :=
  fun hash hreaches => h hash (.through hresolved hpoints hreaches)

theorem Spared.reads {codec : NodeCodec H} {p : RlpNode H} {node : PathNode H}
    (h : Spared codec b b' p) (hreads : Reads codec b p node) : Reads codec b' p node :=
  ⟨h.resolvePtr.trans hreads.resolved, hreads.sound, hreads.address⟩

theorem Spared.roots {codec : NodeCodec H} {p : RlpNode H} {node : PathNode H}
    (h : Spared codec b b' p) (hroots : Roots codec b p node) : Roots codec b' p node :=
  ⟨h.resolvePtr.trans hroots.resolved, hroots.sound, hroots.hash⟩

theorem spells_spared {codec : NodeCodec H} {n : Nat} {node : PathNode H}
    {entries : Entries Nibble Bytes} (hspells : Spells (Reads codec b) n node entries)
    (h : ∀ q, node.Points q → Spared codec b b' q) : Spells (Reads codec b') n node entries := by
  induction hspells with
  | leaf value length => exact .leaf value length
  | @extension n m key child node entries nonempty length read below ih =>
      have hchild := h child rfl
      exact .extension nonempty length (hchild.reads read)
        (ih (fun q hq => hchild.below read.resolved hq))
  | @branch n children nodes entries read below absent ih =>
      have hchild (i : Nibble) (child : RlpNode H) (hc : children i = some child) :
          Spared codec b b' child := h child ⟨i, hc⟩
      exact .branch nodes entries (fun i child hc => (hchild i child hc).reads (read i child hc))
        (fun i child hc => ih i child hc
          (fun q hq => (hchild i child hc).below (read i child hc).resolved hq)) absent

-- a trie outlives the loss of records that it does not reach
theorem Stored.spared {codec : NodeCodec H} {n : Nat} {root : H} {entries : Entries Nibble Bytes}
    (hstored : Stored codec b n root entries) (hgenuine : Genuine codec b')
    (h : ∀ p, rootToPtr codec root = some p → Spared codec b b' p) :
    Stored codec b' n root entries := by
  have hshown := hstored.shown
  have htight := hstored.tight
  refine ⟨hgenuine, ?_, ?_⟩
  · cases hptr : rootToPtr codec root with
    | none =>
        rw [hptr] at hshown
        exact hshown
    | some p =>
        rw [hptr] at hshown
        obtain ⟨node, hroots, hspells⟩ := hshown
        exact ⟨node, (h p hptr).roots hroots,
          spells_spared hspells (fun q hq => (h p hptr).below hroots.resolved hq)⟩
  · cases hptr : rootToPtr codec root with
    | none => trivial
    | some p =>
        rw [hptr] at htight
        obtain ⟨node, hroots, hcompact⟩ := htight
        exact ⟨node, (h p hptr).roots hroots, hcompact⟩

theorem recorded_of_reaches {codec : NodeCodec H} {p : RlpNode H} {hash : H}
    (hreaches : Reaches codec b p hash) {n : Nat} {node : PathNode H}
    {entries : Entries Nibble Bytes} (hresolved : b.resolvePtr codec p = some (.ofPath node))
    (hspells : Spells (Reads codec b) n node entries) : b.record hash ≠ none := by
  induction hreaches generalizing n node entries with
  | here hash =>
      obtain ⟨raw, hraw, -⟩ := Option.bind_eq_some_iff.mp hresolved
      exact Option.ne_none_iff_exists'.mpr ⟨raw, hraw⟩
  | through resolved points reaches ih =>
      obtain rfl := ofPath_injective (Option.some.inj (hresolved.symm.trans resolved))
      obtain ⟨m, child, below, hread, hbelow⟩ := hspells.points points
      exact ih hread.resolved hbelow

theorem Stored.recorded {codec : NodeCodec H} {n : Nat} {root : H} {entries : Entries Nibble Bytes}
    (h : Stored codec b n root entries) {p : RlpNode H} (hp : rootToPtr codec root = some p)
    {hash : H} (hreaches : Reaches codec b p hash) : b.record hash ≠ none := by
  have hshown := h.shown
  rw [hp] at hshown
  obtain ⟨node, hroots, hspells⟩ := hshown
  exact recorded_of_reaches hreaches hroots.resolved hspells

variable {c : Crypto} {db : RevmStableDb} {roots : Address → H} {root : H}

def NodeStore.before (s : NodeStore H) (journal : JournalUpdate H) : JournalBuilder H :=
  ⟨s.nodeDb, journal.nodeDeltaCounts, journal.newNodeRecords⟩

theorem record_before (s : NodeStore H) (journal : JournalUpdate H) (hash : H) :
    (s.before journal).record hash = (journal.newNodeRecords.get hash).or (s.bytesAt hash) :=
  record_eq (s.before journal) hash

theorem genuine_applied {codec : NodeCodec H} {s : NodeStore H} {journal : JournalUpdate H}
    (h : Genuine codec (s.before journal)) (emptyRoot : H) :
    Genuine codec (.new (s.applyJournal emptyRoot journal).nodeDb) := by
  refine genuine_new (fun hash record hget => ?_)
  have hbytes : (s.applyJournal emptyRoot journal).bytesAt hash = some record.rlp := by
    rw [NodeStore.bytesAt, hget]
    rfl
  have hrecord := NodeStore.bytesAt_applyJournal emptyRoot s journal hbytes
  rw [← record_before] at hrecord
  exact h.record hrecord

-- the collector takes no record that the tries of the roots still reach
structure KeepsLive (codec : NodeCodec H) (b b' : JournalBuilder H) (roots : Address → H) (root : H) :
    Prop where
  state : ∀ p, rootToPtr codec root = some p → ∀ hash, Reaches codec b p hash →
    b'.record hash ≠ none
  storage : ∀ addr p, rootToPtr codec (roots addr) = some p → ∀ hash, Reaches codec b p hash →
    b'.record hash ≠ none

theorem mirrors_applied {s : NodeStore H} {journal : JournalUpdate H}
    (h : Mirrors c codec (s.before journal) db roots root) (emptyRoot : H)
    (hlive : KeepsLive codec.toNodeCodec (s.before journal)
      (.new (s.applyJournal emptyRoot journal).nodeDb) roots root) :
    Mirrors c codec (.new (s.applyJournal emptyRoot journal).nodeDb) db roots root := by
  have hspared (p : RlpNode H) (hp : ∀ hash, Reaches codec.toNodeCodec (s.before journal) p hash →
      (JournalBuilder.new (s.applyJournal emptyRoot journal).nodeDb).record hash ≠ none) :
      Spared codec.toNodeCodec (s.before journal)
        (.new (s.applyJournal emptyRoot journal).nodeDb) p := by
    intro hash hreaches
    obtain ⟨raw, hraw⟩ := Option.ne_none_iff_exists'.mp (hp hash hreaches)
    rw [hraw, record_before]
    exact (NodeStore.bytesAt_applyJournal emptyRoot s journal hraw).symm
  obtain ⟨e, hlists, hstored⟩ := h.state
  have hgenuine := genuine_applied hstored.genuine emptyRoot
  refine ⟨fun addr => ?_, e, hlists, hstored.spared hgenuine (fun p hp => hspared p (hlive.state p hp))⟩
  obtain ⟨e, hlists, hstored⟩ := h.storage addr
  exact ⟨e, hlists, hstored.spared hgenuine (fun p hp => hspared p (hlive.storage addr p hp))⟩

theorem keepsLive_fresh {s : NodeStore H} (hfresh : s.Fresh) {journal : JournalUpdate H}
    (h : Mirrors c codec (s.before journal) db roots root) (emptyRoot : H) :
    KeepsLive codec.toNodeCodec (s.before journal)
      (.new (s.applyJournal emptyRoot journal).nodeDb) roots root := by
  have hsame (hash : H) : (JournalBuilder.new (s.applyJournal emptyRoot journal).nodeDb).record hash =
      (s.before journal).record hash := by
    rw [record_before]
    exact NodeStore.bytesAt_applyFresh emptyRoot hfresh journal hash
  constructor
  · intro p hp hash hreaches
    obtain ⟨e, -, hstored⟩ := h.state
    rw [hsame]
    exact hstored.recorded hp hreaches
  · intro addr p hp hash hreaches
    obtain ⟨e, -, hstored⟩ := h.storage addr
    rw [hsame]
    exact hstored.recorded hp hreaches

theorem mirrors_appliedFresh {s : NodeStore H} (hfresh : s.Fresh) {journal : JournalUpdate H}
    (h : Mirrors c codec (s.before journal) db roots root) (emptyRoot : H) :
    Mirrors c codec (.new (s.applyJournal emptyRoot journal).nodeDb) db roots root :=
  mirrors_applied h emptyRoot (keepsLive_fresh hfresh h emptyRoot)

end Kasane.Trie
