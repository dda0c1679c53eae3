import Kasane.Trie.Pieces

namespace Kasane.Trie

open BigEndian Patricia JournalBuilder

variable {H : Type} [LinearOrder H] {codec : NodeCodec H} {b b' : JournalBuilder H} {n : Nat}
  {entries : Entries Nibble Bytes}
  {view : JournalBuilder H → RlpNode H → PathNode H → Prop}

theorem Tight.node (hview : View codec view) {p : RlpNode H} {node : PathNode H}
    (h : Tight codec view b (some p)) (hp : view b p node) : Compact (Named codec) node := by
  obtain ⟨node', hp', hcompact⟩ := h
  have heq := (hview.resolved b p node' hp').symm.trans (hview.resolved b p node hp)
  rwa [← ofPath_injective (Option.some.inj heq)]

theorem Tight.of_node {p : RlpNode H} {node : PathNode H} (hp : view b p node)
    (h : Compact (Named codec) node) : Tight codec view b (some p) := ⟨node, hp, h⟩

theorem spells_named {node : PathNode H} (h : Spells (Reads codec b) n node entries) :
    Spells (Named codec) n node entries := h.mono (fun _ _ hr => hr.named)

-- the node that an extension of a compact trie points at is a branch
theorem compact_extension (hlawful : codec.Lawful) {key : List Nibble} {child : RlpNode H}
    {node : PathNode H} (h : Compact (Named codec) (.extension key child))
    (hchild : Named codec child node) :
    Compact (Named codec) node ∧ ∃ children, node = .branch children := by
  cases h with
  | @extension _ _ children nonempty read below =>
      obtain rfl := named_functional hlawful child _ _ read hchild
      exact ⟨below, children, rfl⟩

theorem compact_branch_child (hlawful : codec.Lawful) {children : Children H}
    (h : Compact (Named codec) (.branch children)) {i : Nibble} {child : RlpNode H}
    {node : PathNode H} (hi : children i = some child) (hchild : Named codec child node) :
    Compact (Named codec) node := by
  cases h with
  | branch nodes read below two =>
      obtain rfl := named_functional hlawful child _ _ (read i child hi) hchild
      exact below i child hi

theorem forks_branch (hlawful : codec.Lawful) {children : Children H}
    (h : Compact (Named codec) (.branch children))
    (hspells : Spells (Named codec) n (.branch children) entries) : Forks entries :=
  h.forks (named_functional hlawful) hspells

theorem tight_update {children : Children H} (hnone : children = fun _ => none) (idx : Nibble)
    {child : RlpNode H} (h : Tight codec view b (some child)) (k : Nibble) :
    Tight codec view b (Function.update children idx (some child) k) := by
  by_cases hk : k = idx
  · subst hk
    rwa [Function.update_self]
  · rw [Function.update_of_ne hk, hnone]
    trivial

theorem tight_placeExtension (hlawful : codec.Lawful) {x : Children H × JournalBuilder H}
    (h : Genuine codec x.2) (hnone : x.1 = fun _ => none) (idx : Nibble) (tail : List Nibble) {child : RlpNode H}
    {children : Children H} (hreads : Reads codec x.2 child (.branch children))
    (hcompact : Compact (Named codec) (.branch children)) :
    ∀ k, Tight codec (Reads codec) (placeExtension codec (idx :: tail) child x).2
      ((placeExtension codec (idx :: tail) child x).1 k) := by
  cases tail with
  | nil => exact tight_update hnone idx (.of_node hreads hcompact)
  | cons i tail =>
      obtain ⟨hgrows, hemitted⟩ :=
        reads_emitNode hlawful h (sound_extension _ (i :: tail) hreads.child)
      exact tight_update hnone idx
        (.of_node hemitted (.extension (List.cons_ne_nil i tail) hreads.named hcompact))

-- what one step of the update does with the pointer it is given
inductive Step (codec : NodeCodec H) (view : JournalBuilder H → RlpNode H → PathNode H → Prop)
    (fuel : Nat) (b : JournalBuilder H) (key : List Nibble) (depth : Nat) (value : Option Bytes)
    (n : Nat) : Option (RlpNode H) → Entries Nibble Bytes → Option (Built H) → Prop
  | vacant : Step codec view fuel b key depth value n none (fun _ => none)
      (some (emitValue codec b (key.drop depth) value))
  | removed {ptr : RlpNode H} {old : Bytes} (leaf : view b ptr (.leaf (key.drop depth) old))
      (deletes : value = none) : Step codec view fuel b key depth value n (some ptr)
        (single (key.drop depth) old) (some (replaced ptr (none, b)))
  | kept {ptr : RlpNode H} {old : Bytes} (leaf : view b ptr (.leaf (key.drop depth) old))
      (same : value = some old) : Step codec view fuel b key depth value n (some ptr)
        (single (key.drop depth) old) (some (some ptr, b))
  | written {ptr : RlpNode H} {old new : Bytes} (leaf : view b ptr (.leaf (key.drop depth) old))
      (writes : value = some new) : Step codec view fuel b key depth value n (some ptr)
        (single (key.drop depth) old)
        (some (replaced ptr (emitSome codec b (.leaf (key.drop depth) new))))
  | parted {ptr : RlpNode H} {shared v : List Nibble} {i j : Nibble}
      {below : Entries Nibble Bytes} {x : Children H × JournalBuilder H}
      (rest : key.drop depth = shared ++ j :: v) (parts : i ≠ j) (grows : Grows codec b x.2)
      (places : Places codec x.2 v.length x.1 (only i below))
      (tight : Tight codec view b (some ptr) →
        (∀ k, Tight codec (Reads codec) x.2 (x.1 k)) ∧ ∃ t, below t ≠ none) :
      Step codec view fuel b key depth value n (some ptr) (under shared (fork (only i below)))
        (some (replaced ptr (withPrefix codec shared (collapseChildren codec
          (placeValue codec (j :: v) value x).2 (placeValue codec (j :: v) value x).1))))
  | through {ptr child : RlpNode H} {extKey rest : List Nibble} {m : Nat}
      {below : Entries Nibble Bytes} (path : key.drop depth = extKey ++ rest)
      (nonempty : extKey ≠ []) (length : n = extKey.length + m)
      (shown : Shown codec (Reads codec) b m (some child) below)
      (tight : Tight codec view b (some ptr) →
        Tight codec (Reads codec) b (some child) ∧ Forks below) :
      Step codec view fuel b key depth value n (some ptr) (under extKey below)
        ((updateAt codec fuel b (some child) key (depth + extKey.length) value).map
          (fun r => replaced ptr (withPrefix codec extKey r)))
  | into {ptr : RlpNode H} {children : Children H} {idx : Nibble} {rest : List Nibble} {m : Nat}
      {below : Nibble → Entries Nibble Bytes} (path : key.drop depth = idx :: rest)
      (length : n = m + 1) (places : Places codec b m children below)
      (tight : Tight codec view b (some ptr) →
        (∀ i, Tight codec (Reads codec) b (children i)) ∧ Forks (fork below)) :
      Step codec view fuel b key depth value n (some ptr) (fork below)
        ((updateAt codec fuel b (children idx) key (depth + 1) value).map (fun r =>
          replaced ptr (collapseChildren codec r.2 (Function.update children idx r.1))))

theorem step_updateLeaf (hlawful : codec.Lawful) (hview : View codec view) (h : Genuine codec b)
    (fuel : Nat) {ptr : RlpNode H} {leafKey : List Nibble} {old : Bytes} {key : List Nibble}
    {depth : Nat} (hptr : view b ptr (.leaf leafKey old)) (hkey : leafKey.length = n)
    (hrest : (key.drop depth).length = n) (value : Option Bytes) :
    Step codec view fuel b key depth value n (some ptr) (single leafKey old)
      (some (updateLeaf codec b ptr leafKey old (key.drop depth) value)) := by
  unfold updateLeaf
  dsimp only
  by_cases hsame : leafKey = key.drop depth
  · subst hsame
    rw [commonPrefixLength_self, if_pos ⟨rfl, rfl⟩]
    cases value with
    | none => exact .removed hptr rfl
    | some v =>
        dsimp only
        split_ifs with hv
        · exact .kept hptr (congrArg some hv.symm)
        · exact .written hptr rfl
  · have hprefix : ¬ leafKey <+: key.drop depth :=
      fun hpre => hsame (hpre.eq_of_length (hkey.trans hrest.symm))
    obtain ⟨shared, i, j, u, v, rfl, hparted, hij⟩ := parted hprefix (hkey.trans hrest.symm).le
    rw [hparted] at hrest ⊢
    rw [commonPrefixLength_parted shared hij, if_neg (by simp), List.drop_left, List.drop_left,
      List.take_left]
    rw [List.length_append, List.length_cons] at hkey hrest
    obtain ⟨hgrows, hreads⟩ := reads_emitNode hlawful h (sound_leaf codec u old)
    have hplaces := (places_none.grows hgrows).update i
      (Shown.of_node hreads (.leaf old (by omega : u.length = v.length)))
    have hleaf : single (shared ++ i :: u) old = under shared (fork (only i (single u old))) := by
      rw [fork_only_single, under_single]
    rw [hleaf]
    refine .parted hparted hij hgrows hplaces (fun _ => ⟨?_, u, ?_⟩)
    · exact tight_update rfl i (.of_node hreads (.leaf u old))
    · rw [single, Function.update_self]
      exact Option.some_ne_none old

theorem step_updateAt (hlawful : codec.Lawful) (hview : View codec view) (h : Genuine codec b)
    (fuel : Nat) {ptr : Option (RlpNode H)} (hshown : Shown codec view b n ptr entries)
    {key : List Nibble} {depth : Nat} (hdepth : key.length = depth + n) (value : Option Bytes) :
    Step codec view fuel b key depth value n ptr entries
      (updateAt codec (fuel + 1) b ptr key depth value) := by
  have hrest : (key.drop depth).length = n := by
    rw [List.length_drop]
    omega
  unfold updateAt
  cases ptr with
  | none =>
      have hnone : entries = fun _ => none := hshown
      subst hnone
      exact .vacant
  | some ptr =>
      obtain ⟨node, hptr, hspells⟩ := hshown
      dsimp only
      rw [hview.resolved b ptr node hptr]
      cases node with
      | leaf leafKey old =>
          obtain ⟨hlength, rfl⟩ := hspells.leaf_inv
          exact step_updateLeaf hlawful hview h fuel hptr hlength hrest value
      | extension extKey child =>
          obtain ⟨m, node, below, hne, hlength, hread, hbelow, rfl⟩ := hspells.extension_inv
          have hdown (ht : Tight codec view b (some ptr)) :
              Compact (Named codec) node ∧ ∃ children, node = .branch children :=
            compact_extension hlawful (ht.node hview hptr) hread.named
          dsimp only [TrieNode.ofPath]
          rw [updateExtension]
          dsimp only
          by_cases hprefix : extKey <+: key.drop depth
          · obtain ⟨rest, hsplit⟩ := hprefix
            have hcommon : commonPrefixLength extKey (key.drop depth) = extKey.length := by
              rw [← hsplit]
              have happend := commonPrefixLength_append extKey [] rest
              rwa [List.append_nil] at happend
            rw [hcommon, if_pos rfl]
            refine .through hsplit.symm hne hlength ⟨node, hread, hbelow⟩ (fun ht => ?_)
            obtain ⟨hcompact, children, rfl⟩ := hdown ht
            exact ⟨.of_node hread hcompact, forks_branch hlawful hcompact (spells_named hbelow)⟩
          · obtain ⟨shared, i, j, u, v, rfl, hparted, hij⟩ := parted hprefix
              (by omega : extKey.length ≤ (key.drop depth).length)
            rw [List.length_append, List.length_cons] at hlength
            rw [hparted] at hrest ⊢
            rw [List.length_append, List.length_cons] at hrest
            obtain ⟨hgrows, hplaces⟩ := places_placeExtension hlawful (x := (fun _ => none, b)) h
              places_none i (by omega : v.length = u.length + m) hread hbelow
            have hext : under (shared ++ i :: u) below =
                under shared (fork (only i (under u below))) := under_append shared (i :: u) below
            rw [commonPrefixLength_parted shared hij, if_neg (by simp), List.drop_left,
              List.drop_left, List.take_left, hext]
            refine .parted hparted hij hgrows hplaces (fun ht => ?_)
            obtain ⟨hcompact, children, rfl⟩ := hdown ht
            obtain ⟨t, htop⟩ := (forks_branch hlawful hcompact (spells_named hbelow)).exists_entry
            exact ⟨tight_placeExtension hlawful h rfl i u hread hcompact, u ++ t, by rwa [under_apply]⟩
      | branch children =>
          obtain ⟨m, nodes, below, rfl, hread, hbelow, habsent, rfl⟩ := hspells.branch_inv
          have hplaces : Places codec b m children below := by
            intro i
            cases hc : children i with
            | none => exact habsent i hc
            | some child => exact ⟨nodes i, hread i child hc, hbelow i child hc⟩
          have hdown (ht : Tight codec view b (some ptr)) :
              (∀ i, Tight codec (Reads codec) b (children i)) ∧ Forks (fork below) := by
            have hcompact := ht.node hview hptr
            refine ⟨fun i => ?_, forks_branch hlawful hcompact (spells_named hspells)⟩
            cases hc : children i with
            | none => trivial
            | some child =>
                exact .of_node (hread i child hc)
                  (compact_branch_child hlawful hcompact hc (hread i child hc).named)
          cases hdrop : key.drop depth with
          | nil =>
              rw [hdrop] at hrest
              exact absurd hrest (by simp)
          | cons idx rest =>
              dsimp only [TrieNode.ofPath]
              rw [updateBranch]
              dsimp only
              rw [hdrop, branchChildren_ofPresent]
              exact .into hdrop rfl hplaces hdown

variable {fuel : Nat}

theorem drop_through {key extKey rest : List Nibble} {depth : Nat}
    (h : key.drop depth = extKey ++ rest) : key.drop (depth + extKey.length) = rest := by
  rw [← List.drop_drop, h, List.drop_left]

-- the update writes one key, and leaves every other entry as it was
theorem updateAt_yields (hlawful : codec.Lawful) (hview : View codec view) (h : Genuine codec b)
    {ptr : Option (RlpNode H)} (hshown : Shown codec view b n ptr entries) (hfuel : n < fuel)
    {key : List Nibble} {depth : Nat} (hdepth : key.length = depth + n) (value : Option Bytes) :
    ∃ r, updateAt codec fuel b ptr key depth value = some r ∧
      Yields codec view b n (Function.update entries (key.drop depth) value) r := by
  induction fuel generalizing view b n ptr entries depth with
  | zero => exact absurd hfuel (Nat.not_lt_zero n)
  | succ fuel ih =>
      have hrest : (key.drop depth).length = n := by
        rw [List.length_drop]
        omega
      have hstep := step_updateAt hlawful hview h fuel hshown hdepth value
      generalize updateAt codec (fuel + 1) b ptr key depth value = result at hstep ⊢
      cases hstep with
      | vacant =>
          refine ⟨_, rfl, ?_⟩
          cases value with
          | none => exact ⟨.refl h, Function.update_eq_self _ _⟩
          | some v =>
              exact (yields_emitSome hlawful h (sound_leaf _ _ v) (.leaf v hrest)).of_reads hview
      | @removed ptr old leaf deletes =>
          subst deletes
          refine ⟨_, rfl, Yields.replaced ptr hview ⟨.refl h, ?_⟩⟩
          rw [single, Function.update_idem]
          exact Function.update_eq_self (key.drop depth) (fun _ => none)
      | @kept ptr old leaf same =>
          subst same
          rw [single, Function.update_idem]
          exact ⟨_, rfl, .refl h, _, leaf, .leaf old hrest⟩
      | @written ptr old new leaf writes =>
          subst writes
          rw [single, Function.update_idem]
          exact ⟨_, rfl, ((yields_emitSome hlawful h (sound_leaf _ _ new) (.leaf new hrest)).of_reads
            hview).replaced ptr hview⟩
      | @parted ptr shared v i j below x rest parts grows places tight =>
          rw [rest, List.length_append, List.length_cons] at hrest
          refine ⟨_, rfl, ?_⟩
          rw [rest, ← hrest]
          exact ((yields_split hlawful shared parts rfl value grows places).of_reads hview).replaced
            ptr hview
      | @through ptr child extKey rest m below path nonempty length shown tight =>
          have hpos := List.length_pos_of_ne_nil nonempty
          have hdeeper : key.length = depth + extKey.length + m := by omega
          obtain ⟨r, hr, hyields⟩ := ih view_reads h shown (by omega) hdeeper
          rw [hr]
          refine ⟨_, rfl, ?_⟩
          rw [drop_through path] at hyields
          rw [path, update_under, length]
          exact ((yields_withPrefix hlawful extKey hyields).of_reads hview).replaced ptr hview
      | @into ptr children idx rest m below path length places tight =>
          have hdeeper : key.length = depth + 1 + m := by omega
          obtain ⟨r, hr, hyields⟩ := ih view_reads h (places idx) (by omega) hdeeper
          rw [hr]
          refine ⟨_, rfl, ?_⟩
          have hnext : key.drop (depth + 1) = rest := drop_through (List.singleton_append ▸ path)
          rw [hnext] at hyields
          rw [path, update_fork, length]
          have hplaces := (places.grows hyields.grows).update idx hyields.shown
          exact (((yields_collapse hlawful hyields.grows.genuine hplaces).after
            hyields.grows).of_reads hview).replaced ptr hview

end Kasane.Trie
