import Kasane.Trie.PlainCodec

namespace Kasane.Trie

open BigEndian Patricia JournalBuilder

variable {H : Type} [LinearOrder H] {codec : StateCodec H} {b : JournalBuilder H} {n : Nat}
  {entries : Entries Nibble Bytes}

-- the hash of a leaf that ends the key and holds the value
inductive LeafHash (codec : StateCodec H) (key : List Nibble) : Option Bytes → Option H → Prop
  | absent : LeafHash codec key none none
  | leaf (suffix : List Nibble) (value : Bytes) (ends : suffix <:+ key) :
      LeafHash codec key (some value) (some (codec.hash (codec.encode (.leaf suffix value))))

theorem commonPrefixLength_left (x rest : List Nibble) :
    commonPrefixLength x (x ++ rest) = x.length := by
  have happend := commonPrefixLength_append x [] rest
  rwa [List.append_nil] at happend

theorem prefix_of_commonPrefixLength {x y : List Nibble} (h : commonPrefixLength x y = x.length) :
    x <+: y := by
  induction x generalizing y with
  | nil => exact List.nil_prefix
  | cons a x ih =>
      cases y with
      | nil => cases h
      | cons b y =>
          rw [commonPrefixLength] at h
          split_ifs at h with hab
          rw [hab]
          exact List.cons_prefix_cons.mpr ⟨rfl, ih (Nat.succ.inj h)⟩

theorem under_of_not_prefix {key k : List Nibble} (h : ¬ key <+: k) (m : Entries Nibble Bytes) :
    under key m k = none := by
  by_contra hk
  obtain ⟨rest, rfl, -⟩ := under_some hk
  exact h ⟨rest, rfl⟩

theorem drop_more {key x rest : List Nibble} {depth : Nat} (h : key.drop depth = x ++ rest) :
    key.drop (depth + x.length) = rest := by
  rw [← List.drop_drop, h, List.drop_left]

theorem leafHash_resolve {key : List Nibble} {node : PathNode H}
    (hspells : Spells (Reads codec.toNodeCodec b) n node entries) {p : RlpNode H}
    (hp : Roots codec.toNodeCodec b p node) {depth : Nat} (hkey : key.length = depth + n) {fuel : Nat}
    (hfuel : n < fuel) :
    LeafHash codec key (entries (key.drop depth))
      (resolveLeafHashForKey codec b key fuel depth p) := by
  induction hspells generalizing p depth fuel with
  | @leaf n leafKey value length =>
      cases fuel with
      | zero => exact absurd hfuel (Nat.not_lt_zero _)
      | succ fuel =>
          have hresolve : resolveLeafHashForKey codec b key (fuel + 1) depth p =
              if leafKey = key.drop depth then some (rlpNodeHash codec p) else none := by
            rw [resolveLeafHashForKey, hp.resolved]
            rfl
          rw [hresolve]
          by_cases hsame : leafKey = key.drop depth
          · rw [if_pos hsame, ← hsame, single, Function.update_self, rlpNodeHash, hp.hash]
            exact .leaf leafKey value (hsame ▸ List.drop_suffix depth key)
          · rw [if_neg hsame, single, Function.update_of_ne (Ne.symm hsame)]
            exact .absent
  | @extension n m extKey child node below nonempty length read hbelow ih =>
      cases fuel with
      | zero => exact absurd hfuel (Nat.not_lt_zero _)
      | succ fuel =>
          have hpos := List.length_pos_of_ne_nil nonempty
          have hresolve : resolveLeafHashForKey codec b key (fuel + 1) depth p =
              if commonPrefixLength extKey (key.drop depth) ≠ extKey.length then none
              else resolveLeafHashForKey codec b key fuel
                (depth + commonPrefixLength extKey (key.drop depth)) child := by
            rw [resolveLeafHashForKey, hp.resolved]
            rfl
          rw [hresolve]
          by_cases hprefix : extKey <+: key.drop depth
          · obtain ⟨rest, hrest⟩ := hprefix
            rw [← hrest, commonPrefixLength_left, if_neg (not_not.mpr rfl), under_apply,
              ← drop_more hrest.symm]
            exact ih read.roots (by omega) (by omega)
          · rw [if_pos (fun h => hprefix (prefix_of_commonPrefixLength h)), under_of_not_prefix hprefix]
            exact .absent
  | @branch n children nodes below read hbelow absent ih =>
      cases fuel with
      | zero => exact absurd hfuel (Nat.not_lt_zero _)
      | succ fuel =>
          cases hdrop : key.drop depth with
          | nil =>
              have hlength := congrArg List.length hdrop
              rw [List.length_drop, List.length_nil] at hlength
              omega
          | cons nibble rest =>
              have hresolve : resolveLeafHashForKey codec b key (fuel + 1) depth p =
                  (branchChild (.ofPresent (present children)) nibble).bind
                    (resolveLeafHashForKey codec b key fuel (depth + 1)) := by
                rw [resolveLeafHashForKey, hp.resolved]
                simp only [TrieNode.ofPath, hdrop]
                cases branchChild (.ofPresent (present children)) nibble with
                | none => rfl
                | some child => rfl
              rw [hresolve, branchChild_ofPresent, fork]
              cases hchild : children nibble with
              | none =>
                  rw [absent nibble hchild]
                  exact .absent
              | some child =>
                  have hrest : key.drop (depth + 1) = rest := drop_more (x := [nibble]) hdrop
                  rw [← hrest]
                  exact ih nibble child hchild (read nibble child hchild).roots (by omega) (by omega)

def leafHashAt (codec : StateCodec H) (r : Built H) (key : List Nibble) : Option H :=
  r.1.bind (resolveLeafHashForKey codec r.2 key (key.length + 1) 0)

theorem leafHash_at {r : Built H} (h : Shown codec.toNodeCodec (Roots codec.toNodeCodec) r.2 n r.1 entries)
    {key : List Nibble} (hkey : key.length = n) :
    LeafHash codec key (entries key) (leafHashAt codec r key) := by
  rw [leafHashAt]
  cases hptr : r.1 with
  | none =>
      rw [hptr] at h
      obtain rfl : entries = fun _ => none := h
      exact .absent
  | some p =>
      rw [hptr] at h
      obtain ⟨node, hroots, hspells⟩ := h
      have hdepth : key.length = 0 + n := by omega
      exact leafHash_resolve hspells hroots hdepth (by omega)

variable {b' : JournalBuilder H} {root root' : H} {entries' : Entries Nibble Bytes}
  {ops ops' : List KvOp}

theorem stored_none {codec : NodeCodec H} (h : Genuine codec b) (n : Nat) :
    Stored codec b n (emptyRootHash codec) (fun _ => none) := by
  have hptr : rootToPtr codec (emptyRootHash codec) = none := if_pos rfl
  refine ⟨h, ?_, ?_⟩
  · rw [hptr]
    rfl
  · rw [hptr]
    trivial

theorem stored_empty (codec : NodeCodec H) (n : Nat) :
    Stored codec (.new .empty) n (emptyRootHash codec) (fun _ => none) :=
  stored_none (genuine_new (fun _ _ h => absurd h (by simp))) n

-- the root tells what the entries are, and nothing of the order in which they came
theorem roots_agree_iff {codec : NodeCodec H} (hlawful : codec.Lawful)
    (h : Stored codec b n root entries) (h' : Stored codec b' n root' entries')
    (hkeys : ∀ op ∈ ops, op.key.length = n) (hkeys' : ∀ op ∈ ops', op.key.length = n)
    (htidy : TidyOps entries ops) (htidy' : TidyOps entries' ops') :
    ∃ r r', applyOps codec (rootToPtr codec root, b) ops = some r ∧
      applyOps codec (rootToPtr codec root', b') ops' = some r' ∧
        (ptrToRoot codec r.1 = ptrToRoot codec r'.1 ↔
          overwrite entries ops = overwrite entries' ops') := by
  obtain ⟨r, hr, hyields⟩ := applyOps_yields hlawful h.genuine h.shown hkeys
  obtain ⟨r', hr', hyields'⟩ := applyOps_yields hlawful h'.genuine h'.shown hkeys'
  have hroot := isRoot_of_tight hyields.shown
    (applyOps_tight hlawful h.genuine h.shown h.tight hkeys htidy hr)
  have hroot' := isRoot_of_tight hyields'.shown
    (applyOps_tight hlawful h'.genuine h'.shown h'.tight hkeys' htidy' hr')
  refine ⟨r, r', hr, hr', fun heq => ?_, fun heq => ?_⟩
  · rw [heq] at hroot
    exact hroot.entries_unique hlawful hroot'
  · rw [heq] at hroot
    exact hroot.unique hlawful hroot'

theorem roots_agree_sample :
    ∃ r r', applyOps plainCodec (rootToPtr plainCodec (emptyRootHash plainCodec), .new .empty)
        [⟨[1, 2], some [7]⟩, ⟨[1, 3], some [8]⟩] = some r ∧
      applyOps plainCodec (rootToPtr plainCodec (emptyRootHash plainCodec), .new .empty)
        [⟨[1, 3], some [8]⟩, ⟨[1, 2], some [7]⟩] = some r' ∧
        (ptrToRoot plainCodec r.1 = ptrToRoot plainCodec r'.1 ↔
          overwrite (fun _ => none) [⟨[1, 2], some [7]⟩, ⟨[1, 3], some [8]⟩] =
            overwrite (fun _ => none) [⟨[1, 3], some [8]⟩, ⟨[1, 2], some [7]⟩]) :=
  roots_agree_iff plain_lawful (stored_empty _ 2) (stored_empty _ 2) (by decide) (by decide)
    (tidyOps_of_writes (by decide) _) (tidyOps_of_writes (by decide) _)

end Kasane.Trie
