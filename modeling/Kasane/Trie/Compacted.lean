import Kasane.Lib.PatriciaTidy
import Kasane.Trie.Step

namespace Kasane.Trie

open BigEndian Patricia JournalBuilder

variable {H : Type} [LinearOrder H] {codec : NodeCodec H} {b b' : JournalBuilder H} {n : Nat}
  {entries : Entries Nibble Bytes}
  {view : JournalBuilder H → RlpNode H → PathNode H → Prop} {fuel : Nat}

theorem tight_grows_iff (hview : View codec view) (hgrows : Grows codec b b')
    {p : Option (RlpNode H)} (hshown : Shown codec view b n p entries) :
    Tight codec view b' p ↔ Tight codec view b p := by
  cases p with
  | none => exact Iff.rfl
  | some p =>
      obtain ⟨node, hp, -⟩ := hshown
      constructor
      · intro h
        exact .of_node hp (h.node hview (hview.grows _ _ _ _ hgrows hp))
      · intro h
        exact .of_node (hview.grows _ _ _ _ hgrows hp) (h.node hview hp)

theorem tight_reads_iff (hview : View codec view) {p : Option (RlpNode H)}
    (hshown : Shown codec (Reads codec) b n p entries) :
    Tight codec view b p ↔ Tight codec (Reads codec) b p := by
  cases p with
  | none => exact Iff.rfl
  | some p =>
      obtain ⟨node, hp, -⟩ := hshown
      constructor
      · intro h
        exact .of_node hp (h.node hview (hview.ofReads _ _ _ hp))
      · intro h
        exact .of_node (hview.ofReads _ _ _ hp) (h.node view_reads hp)

theorem tight_replaced_iff (hview : View codec view) (ptr : RlpNode H) {r : Built H}
    (h : Yields codec (Reads codec) b n entries r) :
    Tight codec view (replaced ptr r).2 (replaced ptr r).1 ↔ Tight codec (Reads codec) r.2 r.1 := by
  have hgrows := grows_replacePtr h.grows.genuine (some ptr) r.1
  have hkept := tight_grows_iff hview hgrows (h.shown.of_reads hview)
  exact hkept.trans (tight_reads_iff hview h.shown)

theorem tight_emitSome_iff (hlawful : codec.Lawful) (h : Genuine codec b) {node : PathNode H}
    (hsound : codec.Sound node) :
    Tight codec (Reads codec) (emitSome codec b (.ofPath node)).2
      (emitSome codec b (.ofPath node)).1 ↔ Compact (Named codec) node := by
  obtain ⟨-, hreads⟩ := reads_emitNode hlawful h hsound
  constructor
  · intro htight
    exact Tight.node view_reads htight hreads
  · exact fun hcompact => .of_node hreads hcompact

theorem compact_forks_iff (hlawful : codec.Lawful) {node : PathNode H}
    (h : Compact (Named codec) node) (hspells : Spells (Named codec) n node entries) :
    (∃ children, node = .branch children) ↔ Forks entries := by
  constructor
  · rintro ⟨children, rfl⟩
    exact forks_branch hlawful h hspells
  · intro hforks
    cases node with
    | leaf key value =>
        obtain ⟨-, rfl⟩ := hspells.leaf_inv
        exact absurd hforks (not_forks_single key value)
    | extension key child =>
        obtain ⟨m, node, below, hne, -, -, -, rfl⟩ := hspells.extension_inv
        exact absurd hforks (not_forks_under hne below)
    | branch children => exact ⟨children, rfl⟩

theorem tight_withPrefix_iff (hlawful : codec.Lawful) {r : Built H} (shared : List Nibble)
    (h : Yields codec (Reads codec) b n entries r) :
    Tight codec (Reads codec) (withPrefix codec shared r).2 (withPrefix codec shared r).1 ↔
      Tight codec (Reads codec) r.2 r.1 ∧ (shared = [] ∨ r.1 = none ∨ Forks entries) := by
  obtain ⟨hgrows, hshown⟩ := h
  rw [withPrefix]
  cases hr : r.1 with
  | none =>
      dsimp only
      rw [hr]
      exact ⟨fun h => ⟨h, .inr (.inl rfl)⟩, fun h => h.1⟩
  | some child =>
      rw [hr] at hshown
      obtain ⟨node, hreads, hspells⟩ := hshown
      dsimp only
      split_ifs with hempty
      · rw [hr]
        exact ⟨fun h => ⟨h, .inl hempty⟩, fun h => h.1⟩
      · have hemitted := tight_emitSome_iff hlawful hgrows.genuine
          (sound_extension codec shared hreads.child)
        refine hemitted.trans ⟨fun h => ?_, ?_⟩
        · obtain ⟨hcompact, hbranch⟩ := compact_extension hlawful h hreads.named
          exact ⟨.of_node hreads hcompact, .inr (.inr
            ((compact_forks_iff hlawful hcompact (spells_named hspells)).mp hbranch))⟩
        · rintro ⟨htight, hcause⟩
          have hcompact := htight.node view_reads hreads
          have hforks : Forks entries := by
            rcases hcause with hnil | hnone | hforks
            · exact absurd hnil hempty
            · cases hnone
            · exact hforks
          obtain ⟨children, rfl⟩ :=
            (compact_forks_iff hlawful hcompact (spells_named hspells)).mpr hforks
          exact .extension hempty hreads.named hcompact

theorem tight_collapse_iff (hlawful : codec.Lawful) (h : Genuine codec b) {children : Children H}
    {below : Nibble → Entries Nibble Bytes} (hplaces : Places codec b n children below) :
    Tight codec (Reads codec) (collapseChildren codec b children).2
        (collapseChildren codec b children).1 ↔
      ∀ i, Tight codec (Reads codec) b (children i) := by
  rw [collapseChildren]
  rcases hkept : present children with - | ⟨⟨idx, child⟩, - | ⟨⟨idx', child'⟩, rest⟩⟩
  · refine ⟨fun _ i => ?_, fun _ => trivial⟩
    cases hc : children i with
    | none => trivial
    | some child =>
        have hmem : (i, child) ∈ present children := mem_present.mpr hc
        rw [hkept] at hmem
        exact absurd hmem List.not_mem_nil
  · have hidx : children idx = some child := by
      have hmem : (idx, child) ∈ present children := by
        rw [hkept]
        exact List.mem_singleton_self _
      exact mem_present.mp hmem
    have hothers : (∀ i, Tight codec (Reads codec) b (children i)) ↔
        Tight codec (Reads codec) b (some child) := by
      refine ⟨fun hall => hidx ▸ hall idx, fun hone i => ?_⟩
      cases hc : children i with
      | none => trivial
      | some other =>
          have hmem : (i, other) ∈ present children := mem_present.mpr hc
          rw [hkept] at hmem
          obtain ⟨-, rfl⟩ := Prod.mk.inj (List.mem_singleton.mp hmem)
          exact hone
    have hshown := hplaces idx
    rw [hidx] at hshown
    obtain ⟨node, hreads, hspells⟩ := hshown
    dsimp only
    rw [hothers, hreads.resolved]
    have hchild : Tight codec (Reads codec) b (some child) ↔ Compact (Named codec) node :=
      ⟨fun ht => ht.node view_reads hreads, fun hcompact => .of_node hreads hcompact⟩
    rw [hchild]
    cases node with
    | leaf key value =>
        refine (tight_emitSome_iff hlawful h (sound_leaf codec (idx :: key) value)).trans ?_
        exact ⟨fun _ => .leaf key value, fun _ => .leaf (idx :: key) value⟩
    | extension key grandchild =>
        obtain ⟨m, node, es, hne, -, hread, -, -⟩ := hspells.extension_inv
        refine (tight_emitSome_iff hlawful h
          (sound_extension codec (idx :: key) hread.child)).trans ?_
        constructor
        · intro hc
          obtain ⟨hcompact, children, rfl⟩ := compact_extension hlawful hc hread.named
          exact .extension hne hread.named hcompact
        · intro hc
          obtain ⟨hcompact, children, rfl⟩ := compact_extension hlawful hc hread.named
          exact .extension (List.cons_ne_nil idx key) hread.named hcompact
    | branch grandchildren =>
        refine (tight_emitSome_iff hlawful h
          (sound_extension codec [idx] hreads.child)).trans ?_
        constructor
        · intro hc
          exact (compact_extension hlawful hc hreads.named).1
        · intro hcompact
          exact .extension (List.cons_ne_nil idx []) hreads.named hcompact
  · obtain ⟨hsound, hspells⟩ := hplaces.spells
    obtain ⟨m, nodes, es, -, hread, -, -, -⟩ := hspells.branch_inv
    dsimp only
    rw [← hkept]
    refine (tight_emitSome_iff hlawful h hsound).trans ?_
    constructor
    · intro hcompact i
      cases hc : children i with
      | none => trivial
      | some c =>
          have hr := hread i c hc
          exact .of_node hr (compact_branch_child hlawful hcompact hc hr.named)
    · intro hall
      have hin {e : Nibble × RlpNode H} (he : e ∈ (idx, child) :: (idx', child') :: rest) :
          children e.1 = some e.2 := mem_present.mp (hkept ▸ he)
      have hnodup : (present children).map Prod.fst |>.Nodup := nodup_present children
      rw [hkept, List.map_cons, List.map_cons] at hnodup
      have hne : idx ≠ idx' := fun heq =>
        (List.nodup_cons.mp hnodup).1 (heq ▸ List.mem_cons_self)
      refine .branch nodes (fun i c hc => (hread i c hc).named) (fun i c hc => ?_)
        ⟨idx, idx', hne, ?_, ?_⟩
      · have ht := hall i
        rw [hc] at ht
        exact ht.node view_reads (hread i c hc)
      · rw [hin List.mem_cons_self]
        rfl
      · rw [hin (List.mem_cons_of_mem _ List.mem_cons_self)]
        rfl

theorem forks_update_some {below : Entries Nibble Bytes} (h : Forks below) (k : List Nibble)
    (v : Bytes) : Forks (Function.update below k (some v)) := by
  obtain ⟨i, j, u, w, hij, hi, hj⟩ := h
  have hkeep {key : List Nibble} (hkey : below key ≠ none) :
      Function.update below k (some v) key ≠ none := by
    rw [Function.update_apply]
    split_ifs
    · exact Option.some_ne_none v
    · exact hkey
  exact ⟨i, j, u, w, hij, hkeep hi, hkeep hj⟩

theorem Yields.some_of_entry {r : Built H} (h : Yields codec view b n entries r)
    (hne : ∃ t, entries t ≠ none) : r.1 ≠ none := by
  intro hr
  have hshown := h.shown
  rw [hr] at hshown
  obtain ⟨t, ht⟩ := hne
  exact ht (congrFun hshown t)

theorem exists_only {i : Nibble} {below : Entries Nibble Bytes} (h : ∃ t, below t ≠ none) :
    ∃ t, fork (only i below) t ≠ none := by
  obtain ⟨t, ht⟩ := h
  exact ⟨i :: t, by rwa [fork, only_self]⟩

-- the split keeps the form when it adds a leaf; without one it leaves an edge in two pieces
theorem tight_split_iff (hlawful : codec.Lawful) {x : Children H × JournalBuilder H}
    (shared : List Nibble) {i j : Nibble} (hij : i ≠ j) {v : List Nibble} (value : Option Bytes)
    (hgenuine : Genuine codec x.2) (hplaces : Places codec x.2 v.length x.1 (only i entries))
    (htight : ∀ k, Tight codec (Reads codec) x.2 (x.1 k)) (hne : ∃ t, entries t ≠ none) :
    Tight codec (Reads codec)
        (withPrefix codec shared (collapseChildren codec (placeValue codec (j :: v) value x).2
          (placeValue codec (j :: v) value x).1)).2
        (withPrefix codec shared (collapseChildren codec (placeValue codec (j :: v) value x).2
          (placeValue codec (j :: v) value x).1)).1 ↔ value ≠ none ∨ shared = [] := by
  obtain ⟨hgrows, hplaced⟩ := places_placeValue hlawful hgenuine hplaces rfl value
    (only_of_ne (Ne.symm hij) entries)
  have hyields := yields_collapse hlawful hgrows.genuine hplaced
  rw [tight_withPrefix_iff hlawful shared hyields, tight_collapse_iff hlawful hgrows.genuine hplaced]
  have hall : ∀ k, Tight codec (Reads codec) (placeValue codec (j :: v) value x).2
      ((placeValue codec (j :: v) value x).1 k) := by
    cases value with
    | none => exact htight
    | some w =>
        intro k
        obtain ⟨hgrows, hreads⟩ := reads_emitNode hlawful hgenuine (sound_leaf codec v w)
        change Tight codec (Reads codec) _ (Function.update x.1 j _ k)
        by_cases hk : k = j
        · subst hk
          rw [Function.update_self]
          exact .of_node hreads (.leaf v w)
        · rw [Function.update_of_ne hk]
          exact (tight_grows_iff view_reads hgrows (hplaces k)).mpr (htight k)
  cases value with
  | none =>
      have hsame : Function.update (only i entries) j
          (Function.update (only i entries j) v none) = only i entries := by
        rw [only_of_ne (Ne.symm hij)]
        refine Function.update_eq_self_iff.mpr ?_
        rw [only_of_ne (Ne.symm hij)]
        exact Function.update_eq_self v (fun _ => none)
      have hsome := hyields.some_of_entry (hsame.symm ▸ exists_only hne)
      have hfork : ¬ Forks (fork (only i entries)) :=
        not_forks_under (List.cons_ne_nil i []) entries
      rw [hsame]
      constructor
      · rintro ⟨-, hnil | hnone | hforks⟩
        · exact .inr hnil
        · exact absurd hnone hsome
        · exact absurd hforks hfork
      · rintro (hnone | hnil)
        · exact absurd rfl hnone
        · exact ⟨hall, .inl hnil⟩
  | some w =>
      refine ⟨fun _ => .inl (Option.some_ne_none w), fun _ => ⟨hall, .inr (.inr ?_)⟩⟩
      obtain ⟨t, ht⟩ := hne
      refine ⟨i, j, t, v, hij, ?_, ?_⟩
      · rwa [fork, Function.update_of_ne hij, only_self]
      · rw [fork, Function.update_self, Function.update_self]
        exact Option.some_ne_none w

-- a write keeps the form of the trie, a removal exactly where it is tidy
theorem updateAt_tight_iff (hlawful : codec.Lawful) (hview : View codec view)
    (h : Genuine codec b) {ptr : Option (RlpNode H)} (hshown : Shown codec view b n ptr entries)
    (htight : Tight codec view b ptr) (hfuel : n < fuel) {key : List Nibble} {depth : Nat}
    (hdepth : key.length = depth + n) {value : Option Bytes} {r : Built H}
    (hr : updateAt codec fuel b ptr key depth value = some r) :
    Tight codec view r.2 r.1 ↔ value ≠ none ∨ Tidy entries (key.drop depth) := by
  induction fuel generalizing view b n ptr entries depth r with
  | zero => exact absurd hfuel (Nat.not_lt_zero n)
  | succ fuel ih =>
      have hrest : (key.drop depth).length = n := by
        rw [List.length_drop]
        omega
      have hstep := step_updateAt hlawful hview h fuel hshown hdepth value
      rw [hr] at hstep
      generalize hresult : some r = result at hstep
      cases hstep with
      | vacant =>
          obtain rfl := Option.some.inj hresult
          cases value with
          | none =>
              refine ⟨fun _ => .inr (tidy_of_removed ?_), fun _ => trivial⟩
              exact Function.update_eq_self (key.drop depth) _
          | some v =>
              refine ⟨fun _ => .inl (Option.some_ne_none v), fun _ => ?_⟩
              have hyields := yields_emitSome hlawful h (sound_leaf _ (key.drop depth) v)
                (.leaf v hrest)
              exact (tight_reads_iff hview hyields.shown).mpr
                ((tight_emitSome_iff hlawful h (sound_leaf _ _ v)).mpr (.leaf _ v))
      | removed leaf deletes =>
          obtain rfl := Option.some.inj hresult
          refine ⟨fun _ => .inr (tidy_of_removed ?_), fun _ => trivial⟩
          rw [single, Function.update_idem]
          exact Function.update_eq_self (key.drop depth) (fun _ => none)
      | @kept ptr old leaf same =>
          obtain rfl := Option.some.inj hresult
          exact ⟨fun _ => .inl (same.trans_ne (Option.some_ne_none old)), fun _ => htight⟩
      | @written ptr old new leaf writes =>
          obtain rfl := Option.some.inj hresult
          refine ⟨fun _ => .inl (writes.trans_ne (Option.some_ne_none new)), fun _ => ?_⟩
          have hyields := yields_emitSome hlawful h (sound_leaf _ (key.drop depth) new)
            (.leaf new hrest)
          exact (tight_replaced_iff hview ptr hyields).mpr
            ((tight_emitSome_iff hlawful h (sound_leaf _ _ new)).mpr (.leaf _ new))
      | @parted ptr shared v i j below x rest parts grows places tight =>
          obtain rfl := Option.some.inj hresult
          obtain ⟨hall, hne⟩ := tight htight
          have hyields := yields_split hlawful shared parts rfl value (.refl grows.genuine) places
          rw [tight_replaced_iff hview ptr hyields,
            tight_split_iff hlawful shared parts value grows.genuine places hall hne, rest]
          have hpath : under shared (fork (only i below)) = under (shared ++ [i]) below :=
            (under_append shared [i] below).symm
          rw [hpath, tidy_parted parts hne v]
      | @through ptr child extKey rest m below path nonempty length shown tight =>
          obtain ⟨hchild, hforks⟩ := tight htight
          have hpos := List.length_pos_of_ne_nil nonempty
          have hlower : m < fuel := by omega
          have hdeeper : key.length = depth + extKey.length + m := by omega
          obtain ⟨r', hr', hyields⟩ := updateAt_yields hlawful view_reads h shown hlower hdeeper value
          have hbelow := ih view_reads h shown hchild hlower hdeeper hr'
          rw [hr'] at hresult
          obtain rfl := Option.some.inj hresult
          rw [drop_through path] at hbelow hyields
          rw [tight_replaced_iff hview ptr (yields_withPrefix hlawful extKey hyields),
            tight_withPrefix_iff hlawful extKey hyields, hbelow, path]
          cases value with
          | none =>
              have hsome := hyields.some_of_entry (hforks.exists_left rest)
              rw [tidy_under nonempty hforks rest]
              constructor
              · rintro ⟨hnone | htidy, hnil | hnone' | hforks'⟩
                · exact absurd rfl hnone
                · exact absurd rfl hnone
                · exact absurd rfl hnone
                · exact absurd hnil nonempty
                · exact absurd hnone' hsome
                · exact .inr ⟨htidy, hforks'⟩
              · rintro (hnone | ⟨htidy, hforks'⟩)
                · exact absurd rfl hnone
                · exact ⟨.inr htidy, .inr (.inr hforks')⟩
          | some v =>
              have hv := Option.some_ne_none v
              exact ⟨fun _ => .inl hv, fun _ => ⟨.inl hv, .inr (.inr (forks_update_some hforks rest v))⟩⟩
      | @into ptr children idx rest m below path length places tight =>
          obtain ⟨hall, i, j, u, w, hij, hi, hj⟩ := tight htight
          have hnext : key.drop (depth + 1) = rest := drop_through (List.singleton_append ▸ path)
          have hlower : m < fuel := by omega
          have hdeeper : key.length = depth + 1 + m := by omega
          obtain ⟨r', hr', hyields⟩ :=
            updateAt_yields hlawful view_reads h (places idx) hlower hdeeper value
          have hbelow := ih view_reads h (places idx) (hall idx) hlower hdeeper hr'
          rw [hr'] at hresult
          obtain rfl := Option.some.inj hresult
          rw [hnext] at hbelow hyields
          have hplaces := (places.grows hyields.grows).update idx hyields.shown
          have hother : ∃ k t, k ≠ idx ∧ below k t ≠ none := by
            by_cases hk : i = idx
            · exact ⟨j, w, fun hj' => hij (hk.trans hj'.symm), hj⟩
            · exact ⟨i, u, hk, hi⟩
          rw [tight_replaced_iff hview ptr (yields_collapse hlawful hyields.grows.genuine hplaces),
            tight_collapse_iff hlawful hyields.grows.genuine hplaces, path, tidy_fork rest hother,
            ← hbelow]
          constructor
          · intro h
            have hat := h idx
            rwa [Function.update_self] at hat
          · intro h k
            by_cases hk : k = idx
            · subst hk
              rwa [Function.update_self]
            · rw [Function.update_of_ne hk]
              exact (tight_grows_iff view_reads hyields.grows (places k)).mpr (hall k)

end Kasane.Trie
