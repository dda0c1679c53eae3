import Kasane.Trie.Shown

namespace Kasane.Trie

open BigEndian Patricia JournalBuilder

variable {H : Type} [LinearOrder H] {codec : NodeCodec H} {b b' : JournalBuilder H} {n : Nat}
  {entries : Entries Nibble Bytes}
  {view : JournalBuilder H → RlpNode H → PathNode H → Prop}

theorem commonPrefixLength_append (shared x y : List Nibble) :
    commonPrefixLength (shared ++ x) (shared ++ y) = shared.length + commonPrefixLength x y := by
  induction shared with
  | nil => simp
  | cons a shared ih =>
      rw [List.cons_append, List.cons_append, commonPrefixLength, if_pos rfl, ih, List.length_cons]
      omega

@[simp] theorem commonPrefixLength_nil_right (x : List Nibble) : commonPrefixLength x [] = 0 := by
  cases x <;> rfl

theorem commonPrefixLength_self (x : List Nibble) : commonPrefixLength x x = x.length := by
  have happend := commonPrefixLength_append x [] []
  rwa [List.append_nil, commonPrefixLength_nil_right] at happend

theorem commonPrefixLength_parted (shared : List Nibble) {i j : Nibble} (hij : i ≠ j)
    (u v : List Nibble) :
    commonPrefixLength (shared ++ i :: u) (shared ++ j :: v) = shared.length := by
  rw [commonPrefixLength_append, commonPrefixLength, if_neg hij, Nat.add_zero]

theorem under_none (key : List Nibble) :
    under key (fun _ => none : Entries Nibble Bytes) = fun _ => none := by
  funext k
  by_contra hk
  obtain ⟨rest, -, hrest⟩ := under_some hk
  exact hrest rfl

-- children whose entries are known, each one at the same depth
def Places (codec : NodeCodec H) (b : JournalBuilder H) (n : Nat) (children : Children H)
    (below : Nibble → Entries Nibble Bytes) : Prop :=
  ∀ i, Shown codec (Reads codec) b n (children i) (below i)

theorem Places.grows {children : Children H} {below : Nibble → Entries Nibble Bytes}
    (h : Places codec b n children below) (hgrows : Grows codec b b') :
    Places codec b' n children below := fun i => (h i).grows view_reads hgrows

theorem Places.update {children : Children H} {below : Nibble → Entries Nibble Bytes}
    (h : Places codec b n children below) (idx : Nibble) {child : Option (RlpNode H)}
    (hchild : Shown codec (Reads codec) b n child entries) :
    Places codec b n (Function.update children idx child) (Function.update below idx entries) := by
  intro i
  by_cases hi : i = idx
  · subst hi
    rwa [Function.update_self, Function.update_self]
  · rw [Function.update_of_ne hi, Function.update_of_ne hi]
    exact h i

theorem places_none : Places codec b n (fun _ => none) (fun _ _ => none) := fun _ => rfl

theorem fork_none : fork (fun _ _ => none) = (fun _ => none : Entries Nibble Bytes) := by
  funext key
  cases key with
  | nil => rfl
  | cons i key => rfl

theorem Places.spells {children : Children H} {below : Nibble → Entries Nibble Bytes}
    (h : Places codec b n children below) :
    codec.Sound (.branch children) ∧ Spells (Reads codec b) (n + 1) (.branch children) (fork below) := by
  have hnode (i : Nibble) : ∃ node, ∀ child, children i = some child →
      Reads codec b child node ∧ Spells (Reads codec b) n node (below i) := by
    have hi := h i
    cases hc : children i with
    | none => exact ⟨.leaf [] [], fun child hchild => absurd hchild (by simp)⟩
    | some child =>
        rw [hc] at hi
        obtain ⟨node, hreads, hspells⟩ := hi
        refine ⟨node, fun child' hchild => ?_⟩
        obtain rfl := Option.some.inj hchild
        exact ⟨hreads, hspells⟩
  choose nodes hnodes using hnode
  constructor
  · rintro p ⟨i, hi⟩
    exact (hnodes i p hi).1.child
  · refine .branch nodes below (fun i child hc => (hnodes i child hc).1)
      (fun i child hc => (hnodes i child hc).2) (fun i hc => ?_)
    have hi := h i
    rwa [hc] at hi

theorem yields_collapse (hlawful : codec.Lawful) (h : Genuine codec b) {children : Children H}
    {below : Nibble → Entries Nibble Bytes} (hplaces : Places codec b n children below) :
    Yields codec (Reads codec) b (n + 1) (fork below) (collapseChildren codec b children) := by
  rw [collapseChildren]
  have habsent {i : Nibble} (hi : children i = none) : below i = fun _ => none := by
    have hshown := hplaces i
    rwa [hi] at hshown
  rcases hkept : present children with - | ⟨⟨idx, child⟩, - | ⟨e, rest⟩⟩
  · have hnone : below = fun _ _ => none := by
      funext i
      refine habsent ?_
      cases hc : children i with
      | none => rfl
      | some child =>
          have hmem : (i, child) ∈ present children := mem_present.mpr hc
          rw [hkept] at hmem
          exact absurd hmem List.not_mem_nil
    rw [hnone, fork_none]
    exact ⟨.refl h, rfl⟩
  · have hidx : children idx = some child := by
      have hmem : (idx, child) ∈ present children := by
        rw [hkept]
        exact List.mem_singleton_self _
      exact mem_present.mp hmem
    have honly : below = only idx (below idx) := by
      funext i
      by_cases hi : i = idx
      · subst hi
        rw [only_self]
      · rw [only_of_ne hi]
        refine habsent ?_
        cases hc : children i with
        | none => rfl
        | some other =>
            have hmem : (i, other) ∈ present children := mem_present.mpr hc
            rw [hkept] at hmem
            exact absurd (congrArg Prod.fst (List.mem_singleton.mp hmem)) hi
    have hshown := hplaces idx
    rw [hidx] at hshown
    obtain ⟨node, hreads, hspells⟩ := hshown
    dsimp only
    rw [honly, hreads.resolved]
    cases node with
    | leaf key value =>
        obtain ⟨hlength, hentries⟩ := hspells.leaf_inv
        rw [hentries, fork_only_single]
        exact yields_emitSome hlawful h (sound_leaf _ _ _) (.leaf value (by rw [List.length_cons, hlength]))
    | extension key grandchild =>
        obtain ⟨m, node, es, hne, hlength, hread, hbelow, hentries⟩ := hspells.extension_inv
        rw [hentries, ← under_cons]
        refine yields_emitSome hlawful h (sound_extension _ _ hread.child)
          (.extension (List.cons_ne_nil idx key) ?_ hread hbelow)
        rw [List.length_cons, hlength]
        omega
    | branch grandchildren =>
        have hunder : fork (only idx (below idx)) = under [idx] (below idx) := rfl
        rw [hunder]
        refine yields_emitSome hlawful h (sound_extension _ _ hreads.child)
          (.extension (List.cons_ne_nil idx []) ?_ hreads hspells)
        rw [List.length_singleton]
        omega
  · obtain ⟨hsound, hspells⟩ := hplaces.spells
    dsimp only
    rw [← hkept]
    exact yields_emitSome hlawful h hsound hspells

theorem yields_withPrefix (hlawful : codec.Lawful) {r : Built H} (shared : List Nibble)
    (h : Yields codec (Reads codec) b n entries r) :
    Yields codec (Reads codec) b (shared.length + n) (under shared entries)
      (withPrefix codec shared r) := by
  obtain ⟨hgrows, hshown⟩ := h
  rw [withPrefix]
  cases hr : r.1 with
  | none =>
      rw [hr] at hshown
      have hnone : entries = fun _ => none := hshown
      rw [hnone, under_none]
      refine ⟨hgrows, ?_⟩
      dsimp only
      rw [hr]
      rfl
  | some child =>
      rw [hr] at hshown
      obtain ⟨node, hreads, hspells⟩ := hshown
      dsimp only
      split_ifs with hempty
      · subst hempty
        rw [under_nil, List.length_nil, Nat.zero_add]
        refine ⟨hgrows, ?_⟩
        rw [hr]
        exact ⟨node, hreads, hspells⟩
      · exact (yields_emitSome hlawful hgrows.genuine (sound_extension _ shared hreads.child)
          (.extension hempty rfl hreads hspells)).after hgrows

-- a leaf, or nothing, placed where no child was
theorem places_placeValue (hlawful : codec.Lawful) {x : Children H × JournalBuilder H}
    {below : Nibble → Entries Nibble Bytes} (h : Genuine codec x.2)
    (hplaces : Places codec x.2 n x.1 below) {idx : Nibble} {tail : List Nibble}
    (hlength : tail.length = n) (value : Option Bytes) (hfree : below idx = fun _ => none) :
    Grows codec x.2 (placeValue codec (idx :: tail) value x).2 ∧
      Places codec (placeValue codec (idx :: tail) value x).2 n
        (placeValue codec (idx :: tail) value x).1
        (Function.update below idx (Function.update (below idx) tail value)) := by
  cases value with
  | none =>
      refine ⟨.refl h, ?_⟩
      have hsame : Function.update (below idx) tail none = below idx := by
        rw [hfree]
        exact Function.update_eq_self tail _
      rw [hsame, Function.update_eq_self]
      exact hplaces
  | some v =>
      obtain ⟨hgrows, hreads⟩ := reads_emitNode hlawful h (sound_leaf _ tail v)
      refine ⟨hgrows, (hplaces.grows hgrows).update idx ?_⟩
      rw [hfree]
      exact ⟨_, hreads, .leaf v hlength⟩

theorem places_placeExtension (hlawful : codec.Lawful) {x : Children H × JournalBuilder H}
    {below : Nibble → Entries Nibble Bytes} (h : Genuine codec x.2)
    (hplaces : Places codec x.2 n x.1 below) (idx : Nibble) {tail : List Nibble} {m : Nat}
    (hlength : n = tail.length + m) {child : RlpNode H} {node : PathNode H}
    (hreads : Reads codec x.2 child node) (hspells : Spells (Reads codec x.2) m node entries) :
    Grows codec x.2 (placeExtension codec (idx :: tail) child x).2 ∧
      Places codec (placeExtension codec (idx :: tail) child x).2 n
        (placeExtension codec (idx :: tail) child x).1
        (Function.update below idx (under tail entries)) := by
  cases tail with
  | nil =>
      rw [List.length_nil, Nat.zero_add] at hlength
      subst hlength
      exact ⟨.refl h, hplaces.update idx ⟨node, hreads, hspells⟩⟩
  | cons i tail =>
      obtain ⟨hgrows, hemitted⟩ :=
        reads_emitNode hlawful h (sound_extension _ (i :: tail) hreads.child)
      refine ⟨hgrows, (hplaces.grows hgrows).update idx ⟨_, hemitted, ?_⟩⟩
      exact .extension (List.cons_ne_nil i tail) hlength (hgrows.reads hreads)
        (hspells.mono (fun _ _ hr => hgrows.reads hr))

-- the split of a leaf or of an extension where its key and the rest of the path part
theorem yields_split (hlawful : codec.Lawful) {x : Children H × JournalBuilder H} (shared : List Nibble)
    {i j : Nibble} (hij : i ≠ j) {v : List Nibble} (hlength : v.length = n) (value : Option Bytes)
    (hgrows : Grows codec b x.2) (hplaces : Places codec x.2 n x.1 (only i entries)) :
    Yields codec (Reads codec) b (shared.length + (n + 1))
      (Function.update (under shared (fork (only i entries))) (shared ++ j :: v) value)
      (withPrefix codec shared (collapseChildren codec (placeValue codec (j :: v) value x).2
        (placeValue codec (j :: v) value x).1)) := by
  obtain ⟨hplaced, hplaces'⟩ := places_placeValue hlawful hgrows.genuine hplaces hlength value
    (only_of_ne (Ne.symm hij) entries)
  rw [update_under, update_fork]
  exact yields_withPrefix hlawful shared
    ((yields_collapse hlawful hplaced.genuine hplaces').after (hgrows.trans hplaced))

theorem parted {x y : List Nibble} (hnot : ¬ x <+: y) (hlength : x.length ≤ y.length) :
    ∃ shared i j u v, x = shared ++ i :: u ∧ y = shared ++ j :: v ∧ i ≠ j := by
  obtain ⟨shared, u, v, rfl, rfl, hparted⟩ := split_common x y
  rw [List.length_append, List.length_append] at hlength
  have hleft : u ≠ [] := by
    rintro rfl
    exact hnot ⟨v, by rw [List.append_nil]⟩
  have hright : v ≠ [] := by
    rintro rfl
    exact hleft (List.eq_nil_of_length_eq_zero (by rw [List.length_nil] at hlength; omega))
  obtain ⟨i, j, u', v', rfl, rfl, hij⟩ := (hparted.resolve_left hleft).resolve_left hright
  exact ⟨shared, i, j, u', v', rfl, rfl, hij⟩

end Kasane.Trie
