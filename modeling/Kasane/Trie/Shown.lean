import Kasane.Trie.Update

namespace Kasane.Trie

open BigEndian Patricia JournalBuilder

variable {H : Type} [LinearOrder H]

def ptrHash (codec : NodeCodec H) : RlpNode H → H
  | .word hash => hash
  | .inline raw => codec.hash raw

variable (codec : NodeCodec H)

-- every record is stored under the hash of its bytes
structure Genuine (b : JournalBuilder H) : Prop where
  db : ∀ hash record, b.nodeDb.get hash = some record → codec.hash record.rlp = hash
  new : ∀ hash raw, b.newNodeRecords.get hash = some raw → codec.hash raw = hash

structure Grows (b b' : JournalBuilder H) : Prop where
  genuine : Genuine codec b'
  nodeDb : b'.nodeDb = b.nodeDb
  keepsNew : ∀ hash raw, b.newNodeRecords.get hash = some raw →
    b'.newNodeRecords.get hash = some raw
  keeps : ∀ hash raw, b.record hash = some raw → b'.record hash = some raw

-- a pointer inside a trie is the one that its node is given when it is emitted
structure Reads (b : JournalBuilder H) (p : RlpNode H) (node : PathNode H) : Prop where
  resolved : b.resolvePtr codec p = some (.ofPath node)
  sound : codec.Sound node
  address : p = codec.rlp (.ofPath node)

-- a root is known by its hash only, also where its node is short
structure Roots (b : JournalBuilder H) (p : RlpNode H) (node : PathNode H) : Prop where
  resolved : b.resolvePtr codec p = some (.ofPath node)
  sound : codec.Sound node
  hash : ptrHash codec p = codec.hash (codec.encode (.ofPath node))

structure View (view : JournalBuilder H → RlpNode H → PathNode H → Prop) : Prop where
  ofReads : ∀ b p node, Reads codec b p node → view b p node
  grows : ∀ b b' p node, Grows codec b b' → view b p node → view b' p node
  resolved : ∀ b p node, view b p node → b.resolvePtr codec p = some (.ofPath node)
  sound : ∀ b p node, view b p node → codec.Sound node

def Shown (view : JournalBuilder H → RlpNode H → PathNode H → Prop) (b : JournalBuilder H) (n : Nat) :
    Option (RlpNode H) → Entries Nibble Bytes → Prop
  | none, entries => entries = fun _ => none
  | some p, entries => ∃ node, view b p node ∧ Spells (Reads codec b) n node entries

variable {codec} {b b' : JournalBuilder H}

theorem Genuine.record (h : Genuine codec b) {hash : H} {raw : Bytes} (hr : b.record hash = some raw) :
    codec.hash raw = hash := by
  rw [JournalBuilder.record] at hr
  cases hnew : b.newNodeRecords.get hash with
  | some raw' =>
      rw [hnew] at hr
      obtain rfl := Option.some.inj hr
      exact h.new hash _ hnew
  | none =>
      rw [hnew] at hr
      obtain ⟨record, hdb, rfl⟩ := Option.map_eq_some_iff.mp hr
      exact h.db hash record hdb

theorem genuine_new {nodeDb : OrdMap H NodeRecord}
    (h : ∀ hash record, nodeDb.get hash = some record → codec.hash record.rlp = hash) :
    Genuine codec (.new nodeDb) :=
  ⟨h, fun hash raw hr => absurd hr (by simp [JournalBuilder.new])⟩

theorem Grows.refl (h : Genuine codec b) : Grows codec b b :=
  ⟨h, rfl, fun _ _ hr => hr, fun _ _ hr => hr⟩

theorem Grows.trans {b'' : JournalBuilder H} (h : Grows codec b b') (h' : Grows codec b' b'') :
    Grows codec b b'' :=
  ⟨h'.genuine, h'.nodeDb.trans h.nodeDb, fun hash raw hr => h'.keepsNew hash raw (h.keepsNew hash raw hr),
    fun hash raw hr => h'.keeps hash raw (h.keeps hash raw hr)⟩

theorem Grows.resolvePtr (h : Grows codec b b') {p : RlpNode H} {node : TrieNode H}
    (hp : b.resolvePtr codec p = some node) : b'.resolvePtr codec p = some node := by
  cases p with
  | inline raw => exact hp
  | word hash =>
      obtain ⟨raw, hr, hdecode⟩ := Option.bind_eq_some_iff.mp hp
      rw [JournalBuilder.resolvePtr, h.keeps hash raw hr]
      exact hdecode

theorem Grows.reads (h : Grows codec b b') {p : RlpNode H} {node : PathNode H}
    (hp : Reads codec b p node) : Reads codec b' p node :=
  ⟨h.resolvePtr hp.resolved, hp.sound, hp.address⟩

theorem replacePtr_nodeDb (b : JournalBuilder H) (o n : Option (RlpNode H)) :
    (b.replacePtr o n).nodeDb = b.nodeDb := by
  rw [replacePtr]
  dsimp only
  split_ifs <;> rfl

theorem replacePtr_newNodeRecords (b : JournalBuilder H) (o n : Option (RlpNode H)) :
    (b.replacePtr o n).newNodeRecords = b.newNodeRecords := by
  rw [replacePtr]
  dsimp only
  split_ifs <;> rfl

theorem grows_replacePtr (h : Genuine codec b) (o n : Option (RlpNode H)) :
    Grows codec b (b.replacePtr o n) := by
  have hdb := replacePtr_nodeDb b o n
  have hnew := replacePtr_newNodeRecords b o n
  refine ⟨⟨?_, ?_⟩, hdb, ?_, ?_⟩
  · rw [hdb]
    exact h.db
  · rw [hnew]
    exact h.new
  · rw [hnew]
    exact fun _ _ hr => hr
  · intro hash raw hr
    rw [JournalBuilder.record, hnew, hdb]
    exact hr

theorem Reads.roots {p : RlpNode H} {node : PathNode H} (h : Reads codec b p node) :
    Roots codec b p node := by
  refine ⟨h.resolved, h.sound, ?_⟩
  rw [h.address, NodeCodec.rlp]
  split_ifs <;> rfl

theorem view_reads : View codec (Reads codec) where
  ofReads := fun _ _ _ h => h
  grows := fun _ _ _ _ hgrows h => hgrows.reads h
  resolved := fun _ _ _ h => h.resolved
  sound := fun _ _ _ h => h.sound

theorem view_roots : View codec (Roots codec) where
  ofReads := fun _ _ _ h => h.roots
  grows := fun _ _ _ _ hgrows h => ⟨hgrows.resolvePtr h.resolved, h.sound, h.hash⟩
  resolved := fun _ _ _ h => h.resolved
  sound := fun _ _ _ h => h.sound

theorem Reads.child {p : RlpNode H} {node : PathNode H} (h : Reads codec b p node) : codec.Child p :=
  h.address ▸ h.sound.child

theorem reads_functional (p : RlpNode H) (x y : PathNode H) (hx : Reads codec b p x)
    (hy : Reads codec b p y) : x = y :=
  ofPath_injective (Option.some.inj (hx.resolved.symm.trans hy.resolved))

theorem reads_addressed (p q : RlpNode H) (x : PathNode H) (hp : Reads codec b p x)
    (hq : Reads codec b q x) : p = q := hp.address.trans hq.address.symm

-- the same without a builder: the pointer tells the node
def Named (codec : NodeCodec H) (p : RlpNode H) (node : PathNode H) : Prop :=
  codec.Sound node ∧ p = codec.rlp (.ofPath node)

theorem Reads.named {p : RlpNode H} {node : PathNode H} (h : Reads codec b p node) :
    Named codec p node := ⟨h.sound, h.address⟩

theorem named_functional (hlawful : codec.Lawful) (p : RlpNode H) (x y : PathNode H)
    (hx : Named codec p x) (hy : Named codec p y) : x = y := by
  have heq : codec.rlp (.ofPath x) = codec.rlp (.ofPath y) := hx.2.symm.trans hy.2
  refine hlawful.encode_injective hx.1 hy.1 ?_
  rw [NodeCodec.rlp, NodeCodec.rlp] at heq
  split_ifs at heq
  · exact RlpNode.inline.inj heq
  · exact hlawful.hash_injective (RlpNode.word.inj heq)

theorem named_addressed (p q : RlpNode H) (x : PathNode H) (hp : Named codec p x)
    (hq : Named codec q x) : p = q := hp.2.trans hq.2.symm

-- nothing, or a trie in the form that its entries determine
def Tight (codec : NodeCodec H) (view : JournalBuilder H → RlpNode H → PathNode H → Prop)
    (b : JournalBuilder H) : Option (RlpNode H) → Prop
  | none => True
  | some p => ∃ node, view b p node ∧ Compact (Named codec) node

variable {view : JournalBuilder H → RlpNode H → PathNode H → Prop} {n : Nat}
  {entries : Entries Nibble Bytes}

theorem Shown.of_node {p : RlpNode H} {node : PathNode H} (hp : view b p node)
    (h : Spells (Reads codec b) n node entries) : Shown codec view b n (some p) entries :=
  ⟨node, hp, h⟩

theorem Shown.grows (hview : View codec view) {p : Option (RlpNode H)}
    (h : Shown codec view b n p entries) (hgrows : Grows codec b b') :
    Shown codec view b' n p entries := by
  cases p with
  | none => exact h
  | some p =>
      obtain ⟨node, hp, hspells⟩ := h
      exact ⟨node, hview.grows _ _ _ _ hgrows hp, hspells.mono (fun _ _ hr => hgrows.reads hr)⟩

theorem Shown.of_reads (hview : View codec view) {p : Option (RlpNode H)}
    (h : Shown codec (Reads codec) b n p entries) : Shown codec view b n p entries := by
  cases p with
  | none => exact h
  | some p =>
      obtain ⟨node, hp, hspells⟩ := h
      exact ⟨node, hview.ofReads _ _ _ hp, hspells⟩

-- what a step leaves: a grown builder, and a pointer that shows the entries
structure Yields (codec : NodeCodec H) (view : JournalBuilder H → RlpNode H → PathNode H → Prop)
    (b : JournalBuilder H) (n : Nat) (entries : Entries Nibble Bytes) (r : Built H) : Prop where
  grows : Grows codec b r.2
  shown : Shown codec view r.2 n r.1 entries

def JournalBuilder.keep (b : JournalBuilder H) (hash : H) (raw : Bytes) : JournalBuilder H :=
  { b with newNodeRecords := b.newNodeRecords.orInsert hash raw }

theorem get_orInsert {records : OrdMap H Bytes} {hash key : H} {raw raw' : Bytes}
    (h : (records.orInsert hash raw).get key = some raw') :
    records.get key = some raw' ∨ key = hash ∧ raw' = raw := by
  rw [OrdMap.orInsert] at h
  cases hnew : records.get hash with
  | some kept =>
      rw [hnew] at h
      exact .inl h
  | none =>
      rw [hnew] at h
      rw [OrdMap.get_insert] at h
      split_ifs at h with hkey
      · exact .inr ⟨hkey, (Option.some.inj h).symm⟩
      · exact .inl h

theorem orInsert_keeps {records : OrdMap H Bytes} (hash : H) {key : H} (raw : Bytes) {raw' : Bytes}
    (h : records.get key = some raw') : (records.orInsert hash raw).get key = some raw' := by
  rw [OrdMap.orInsert]
  cases hnew : records.get hash with
  | some kept => exact h
  | none =>
      rw [OrdMap.get_insert, if_neg, h]
      rintro rfl
      rw [hnew] at h
      cases h

theorem grows_keep (hlawful : codec.Lawful) (h : Genuine codec b) {hash : H} {raw : Bytes}
    (hhash : codec.hash raw = hash) : Grows codec b (b.keep hash raw) := by
  have hgenuine : Genuine codec (b.keep hash raw) := by
    refine ⟨h.db, fun key raw' hr => ?_⟩
    rcases get_orInsert hr with hold | ⟨rfl, rfl⟩
    · exact h.new key raw' hold
    · exact hhash
  refine ⟨hgenuine, rfl, fun key raw' hr => orInsert_keeps hash raw hr, fun key raw' hr => ?_⟩
  rw [JournalBuilder.record] at hr ⊢
  cases hget : (b.keep hash raw).newNodeRecords.get key with
  | none =>
      cases hnew : b.newNodeRecords.get key with
      | some kept =>
          rw [keep, orInsert_keeps hash raw hnew] at hget
          cases hget
      | none =>
          rw [hnew] at hr
          exact hr
  | some kept =>
      have hkept := hgenuine.new key kept hget
      rw [hlawful.hash_injective (hkept.trans (h.record hr).symm)]

theorem record_keep (hlawful : codec.Lawful) (h : Genuine codec b) {hash : H} {raw : Bytes}
    (hhash : codec.hash raw = hash) : (b.keep hash raw).record hash = some raw := by
  have hstored : (b.newNodeRecords.orInsert hash raw).get hash = some raw := by
    rw [OrdMap.orInsert]
    cases hnew : b.newNodeRecords.get hash with
    | none => exact (OrdMap.get_insert ..).trans (if_pos rfl)
    | some kept => rw [hnew, hlawful.hash_injective ((h.new hash kept hnew).trans hhash.symm)]
  rw [JournalBuilder.record, keep]
  dsimp only
  rw [hstored]

theorem reads_emitNode (hlawful : codec.Lawful) (h : Genuine codec b) {node : PathNode H}
    (hsound : codec.Sound node) : Grows codec b (b.emitNode codec (.ofPath node)).2 ∧
      Reads codec (b.emitNode codec (.ofPath node)).2 (b.emitNode codec (.ofPath node)).1 node := by
  have hdecode := hlawful.decode_encode node hsound
  rw [emitNode]
  by_cases hshort : (codec.encode (.ofPath node)).length < 32
  · have hrlp : codec.rlp (.ofPath node) = .inline (codec.encode (.ofPath node)) := if_pos hshort
    rw [hrlp]
    exact ⟨.refl h, hdecode, hsound, hrlp.symm⟩
  · have hrlp : codec.rlp (.ofPath node) = .word (codec.hash (codec.encode (.ofPath node))) :=
      if_neg hshort
    rw [hrlp]
    refine ⟨grows_keep hlawful h rfl, ?_, hsound, hrlp.symm⟩
    exact (congrArg (Option.bind · codec.decode) (record_keep hlawful h rfl)).trans hdecode

theorem yields_emitSome (hlawful : codec.Lawful) (h : Genuine codec b) {node : PathNode H}
    (hsound : codec.Sound node) (hspells : Spells (Reads codec b) n node entries) :
    Yields codec (Reads codec) b n entries (emitSome codec b (.ofPath node)) := by
  obtain ⟨hgrows, hreads⟩ := reads_emitNode hlawful h hsound
  exact ⟨hgrows, node, hreads, hspells.mono (fun _ _ hr => hgrows.reads hr)⟩

theorem sound_leaf (codec : NodeCodec H) (key : List Nibble) (value : Bytes) :
    codec.Sound (.leaf key value : PathNode H) := fun _ hp => hp.elim

theorem sound_extension (codec : NodeCodec H) (key : List Nibble) {child : RlpNode H} (h : codec.Child child) :
    codec.Sound (.extension key child : PathNode H) := by
  rintro p rfl
  exact h

theorem Yields.replaced {r : Built H} (oldPtr : RlpNode H) (hview : View codec view)
    (h : Yields codec view b n entries r) : Yields codec view b n entries (replaced oldPtr r) := by
  have hgrows := grows_replacePtr h.grows.genuine (some oldPtr) r.1
  exact ⟨h.grows.trans hgrows, h.shown.grows hview hgrows⟩

theorem Yields.of_reads {r : Built H} (hview : View codec view)
    (h : Yields codec (Reads codec) b n entries r) : Yields codec view b n entries r :=
  ⟨h.grows, h.shown.of_reads hview⟩

theorem Yields.after {r : Built H} (hgrows : Grows codec b b') (h : Yields codec view b' n entries r) :
    Yields codec view b n entries r := ⟨hgrows.trans h.grows, h.shown⟩

end Kasane.Trie
