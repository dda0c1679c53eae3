import Kasane.Trie.Compacted

namespace Kasane.Trie

open BigEndian Patricia JournalBuilder

variable {H : Type} [LinearOrder H] {n : Nat} {entries entries' : Entries Nibble Bytes}

section

variable (codec : NodeCodec H)

def emptyRootHash : H := codec.hash (codec.encode .emptyRoot)

def ptrToRoot : Option (RlpNode H) → H
  | some ptr => ptrHash codec ptr
  | none => emptyRootHash codec

def rootToPtr (root : H) : Option (RlpNode H) :=
  if root = emptyRootHash codec then none else some (.word root)

-- the hash that a set of entries has, whatever the history that led to it
inductive IsRoot (n : Nat) : Entries Nibble Bytes → H → Prop
  | empty : IsRoot n (fun _ => none) (emptyRootHash codec)
  | node {entries : Entries Nibble Bytes} {node : PathNode H} (sound : codec.Sound node)
      (compact : Compact (Named codec) node) (spells : Spells (Named codec) n node entries) :
      IsRoot n entries (codec.hash (codec.encode (.ofPath node)))

-- the records hold the trie of a root
structure Stored (b : JournalBuilder H) (n : Nat) (root : H) (entries : Entries Nibble Bytes) :
    Prop where
  genuine : Genuine codec b
  shown : Shown codec (Roots codec) b n (rootToPtr codec root) entries
  tight : Tight codec (Roots codec) b (rootToPtr codec root)

end

variable {codec : NodeCodec H} {b b' : JournalBuilder H}

def overwrite (entries : Entries Nibble Bytes) (ops : List KvOp) : Entries Nibble Bytes :=
  ops.foldl (fun entries op => Function.update entries op.key op.value) entries

-- every removal among the operations is tidy when its turn comes
def TidyOps : Entries Nibble Bytes → List KvOp → Prop
  | _, [] => True
  | entries, op :: ops => (op.value ≠ none ∨ Tidy entries op.key) ∧
      TidyOps (Function.update entries op.key op.value) ops

theorem tidyOps_of_writes {ops : List KvOp} (h : ∀ op ∈ ops, op.value ≠ none)
    (entries : Entries Nibble Bytes) : TidyOps entries ops := by
  induction ops generalizing entries with
  | nil => trivial
  | cons op ops ih =>
      exact ⟨.inl (h op List.mem_cons_self), ih (fun op' hop => h op' (List.mem_cons_of_mem _ hop)) _⟩

theorem encode_ne_empty (hlawful : codec.Lawful) {node : PathNode H} (hsound : codec.Sound node) :
    codec.encode (.ofPath node) ≠ codec.encode .emptyRoot := by
  intro heq
  have hdecode := hlawful.decode_encode node hsound
  rw [heq, hlawful.decode_empty] at hdecode
  cases node <;> cases hdecode

theorem hash_ne_empty (hlawful : codec.Lawful) {node : PathNode H} (hsound : codec.Sound node) :
    codec.hash (codec.encode (.ofPath node)) ≠ emptyRootHash codec :=
  fun heq => encode_ne_empty hlawful hsound (hlawful.hash_injective heq)

theorem IsRoot.unique (hlawful : codec.Lawful) {root root' : H} (h : IsRoot codec n entries root)
    (h' : IsRoot codec n entries root') : root = root' := by
  have hfun := named_functional hlawful
  cases h with
  | empty =>
      generalize hentries : (fun _ => none : Entries Nibble Bytes) = entries at h'
      cases h' with
      | empty => rfl
      | node sound compact spells =>
          obtain ⟨k, hk⟩ := compact.exists_entry hfun spells
          exact absurd (congrFun hentries k).symm hk
  | node sound compact spells =>
      cases h' with
      | empty =>
          obtain ⟨k, hk⟩ := compact.exists_entry hfun spells
          exact absurd rfl hk
      | node sound' compact' spells' =>
          rw [compact.unique hfun named_addressed compact' spells spells']

theorem IsRoot.entries_unique (hlawful : codec.Lawful) {root : H} (h : IsRoot codec n entries root)
    (h' : IsRoot codec n entries' root) : entries = entries' := by
  generalize hroot : root = root' at h'
  cases h with
  | empty =>
      cases h' with
      | empty => rfl
      | node sound compact spells => exact absurd hroot.symm (hash_ne_empty hlawful sound)
  | node sound compact spells =>
      cases h' with
      | empty => exact absurd hroot (hash_ne_empty hlawful sound)
      | node sound' compact' spells' =>
          have hnode := hlawful.encode_injective sound sound' (hlawful.hash_injective hroot)
          rw [← hnode] at spells'
          exact spells.functional (named_functional hlawful) spells'

theorem isRoot_of_tight {p : Option (RlpNode H)} (hshown : Shown codec (Roots codec) b n p entries)
    (htight : Tight codec (Roots codec) b p) : IsRoot codec n entries (ptrToRoot codec p) := by
  cases p with
  | none =>
      obtain rfl : entries = fun _ => none := hshown
      exact .empty
  | some p =>
      obtain ⟨node, hroots, hspells⟩ := hshown
      rw [ptrToRoot, hroots.hash]
      exact .node hroots.sound (htight.node view_roots hroots) (spells_named hspells)

theorem Stored.isRoot (hlawful : codec.Lawful) {root : H} (h : Stored codec b n root entries) :
    IsRoot codec n entries root := by
  have hroot := isRoot_of_tight h.shown h.tight
  rw [rootToPtr] at hroot
  split_ifs at hroot with hempty
  · rw [hempty]
    exact hroot
  · exact hroot

theorem applyOp_yields (hlawful : codec.Lawful) (h : Genuine codec b) {root : Option (RlpNode H)}
    (hshown : Shown codec (Roots codec) b n root entries) {op : KvOp} (hkey : op.key.length = n) :
    ∃ r, applyOp codec b root op = some r ∧
      Yields codec (Roots codec) b n (Function.update entries op.key op.value) r := by
  have hfuel : n < op.key.length + 1 := by omega
  have hlength : op.key.length = 0 + n := by omega
  obtain ⟨r, hr, hyields⟩ := updateAt_yields hlawful view_roots h hshown hfuel hlength op.value
  have hgrows := grows_replacePtr hyields.grows.genuine root r.1
  refine ⟨(r.1, r.2.replacePtr root r.1), ?_, hyields.grows.trans hgrows,
    hyields.shown.grows view_roots hgrows⟩
  rw [applyOp, hr]
  rfl

theorem applyOp_tight_iff (hlawful : codec.Lawful) (h : Genuine codec b)
    {root : Option (RlpNode H)} (hshown : Shown codec (Roots codec) b n root entries)
    (htight : Tight codec (Roots codec) b root) {op : KvOp} (hkey : op.key.length = n) {r : Built H}
    (hr : applyOp codec b root op = some r) :
    Tight codec (Roots codec) r.2 r.1 ↔ op.value ≠ none ∨ Tidy entries op.key := by
  have hlength : op.key.length = 0 + n := by omega
  obtain ⟨r', hr', hyields⟩ := updateAt_yields hlawful view_roots h hshown
    (by omega : n < op.key.length + 1) hlength op.value
  rw [applyOp, hr'] at hr
  obtain rfl := Option.some.inj hr
  have hgrows := grows_replacePtr hyields.grows.genuine root r'.1
  exact (tight_grows_iff view_roots hgrows hyields.shown).trans
    (updateAt_tight_iff hlawful view_roots h hshown htight (by omega) hlength hr')

theorem applyOps_cons (b : JournalBuilder H) (root : Option (RlpNode H)) (op : KvOp)
    (ops : List KvOp) : applyOps codec (root, b) (op :: ops) =
      (applyOp codec b root op).bind (fun r => applyOps codec r ops) := rfl

-- the operations overwrite their keys in turn, in any trie that the records hold
theorem applyOps_yields (hlawful : codec.Lawful) (h : Genuine codec b) {root : Option (RlpNode H)}
    (hshown : Shown codec (Roots codec) b n root entries) {ops : List KvOp}
    (hkeys : ∀ op ∈ ops, op.key.length = n) :
    ∃ r, applyOps codec (root, b) ops = some r ∧
      Yields codec (Roots codec) b n (overwrite entries ops) r := by
  induction ops generalizing b root entries with
  | nil => exact ⟨(root, b), rfl, .refl h, hshown⟩
  | cons op ops ih =>
      obtain ⟨r, hr, hyields⟩ := applyOp_yields hlawful h hshown (hkeys op List.mem_cons_self)
      obtain ⟨r', hr', hyields'⟩ := ih hyields.grows.genuine hyields.shown
        (fun op' hop => hkeys op' (List.mem_cons_of_mem _ hop))
      refine ⟨r', ?_, hyields'.after hyields.grows⟩
      rw [applyOps_cons, hr]
      exact hr'

theorem applyOps_tight (hlawful : codec.Lawful) (h : Genuine codec b) {root : Option (RlpNode H)}
    (hshown : Shown codec (Roots codec) b n root entries)
    (htight : Tight codec (Roots codec) b root) {ops : List KvOp}
    (hkeys : ∀ op ∈ ops, op.key.length = n) (htidy : TidyOps entries ops) {r : Built H}
    (hr : applyOps codec (root, b) ops = some r) : Tight codec (Roots codec) r.2 r.1 := by
  induction ops generalizing b root entries with
  | nil =>
      obtain rfl := Option.some.inj hr
      exact htight
  | cons op ops ih =>
      have hop := hkeys op List.mem_cons_self
      obtain ⟨r', hr', hyields⟩ := applyOp_yields hlawful h hshown hop
      rw [applyOps_cons, hr'] at hr
      exact ih hyields.grows.genuine hyields.shown
        ((applyOp_tight_iff hlawful h hshown htight hop hr').mpr htidy.1)
        (fun op' hop => hkeys op' (List.mem_cons_of_mem _ hop)) htidy.2 hr

theorem stored_ptr (hlawful : codec.Lawful) {p : Option (RlpNode H)}
    (h : Genuine codec b) (hshown : Shown codec (Roots codec) b n p entries)
    (htight : Tight codec (Roots codec) b p)
    (hword : ∀ ptr, p = some ptr → ∃ hash, ptr = .word hash) :
    Stored codec b n (ptrToRoot codec p) entries := by
  have hptr : rootToPtr codec (ptrToRoot codec p) = p := by
    cases p with
    | none => exact if_pos rfl
    | some ptr =>
        obtain ⟨hash, rfl⟩ := hword ptr rfl
        obtain ⟨node, hroots, -⟩ := hshown
        refine if_neg ?_
        rw [ptrToRoot, hroots.hash]
        exact hash_ne_empty hlawful hroots.sound
  refine ⟨h, ?_, ?_⟩
  · rwa [hptr]
  · rwa [hptr]

end Kasane.Trie
