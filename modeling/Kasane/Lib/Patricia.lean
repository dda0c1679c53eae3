import Mathlib.Data.List.Basic
import Mathlib.Logic.Function.Basic

namespace Patricia

variable {N V P : Type}

inductive Node (N V P : Type) where
  | leaf (key : List N) (value : V)
  | extension (key : List N) (child : P)
  | branch (children : N → Option P)

def Node.Points : Node N V P → P → Prop
  | .leaf _ _, _ => False
  | .extension _ child, p => p = child
  | .branch children, p => ∃ i, children i = some p

abbrev Entries (N V : Type) := List N → Option V

def fork (ms : N → Entries N V) : Entries N V
  | [] => none
  | i :: rest => ms i rest

theorem fork_injective {ms ms' : N → Entries N V} (h : fork ms = fork ms') : ms = ms' := by
  funext i rest
  exact congrFun h (i :: rest)

-- two entries part at once
def Forks (entries : Entries N V) : Prop :=
  ∃ i j k k', i ≠ j ∧ entries (i :: k) ≠ none ∧ entries (j :: k') ≠ none

theorem Forks.exists_entry {entries : Entries N V} (h : Forks entries) : ∃ k, entries k ≠ none := by
  obtain ⟨i, -, k, -, -, hi, -⟩ := h
  exact ⟨i :: k, hi⟩

section

variable [DecidableEq N]

def only (i : N) (m : Entries N V) : N → Entries N V :=
  Function.update (fun _ _ => none) i m

def under : List N → Entries N V → Entries N V
  | [], m => m
  | i :: key, m => fork (only i (under key m))

def single (key : List N) (value : V) : Entries N V :=
  Function.update (fun _ => none) key (some value)

@[simp] theorem only_self (i : N) (m : Entries N V) : only i m i = m := Function.update_self ..

theorem only_of_ne {i j : N} (h : j ≠ i) (m : Entries N V) : only i m j = fun _ => none :=
  Function.update_of_ne h ..

theorem only_injective (i : N) {m m' : Entries N V} (h : only i m = only i m') : m = m' := by
  have hat := congrFun h i
  rwa [only_self, only_self] at hat

theorem update_only (i : N) (m m' : Entries N V) : Function.update (only i m) i m' = only i m' :=
  Function.update_idem ..

theorem update_fork (ms : N → Entries N V) (i : N) (rest : List N) (value : Option V) :
    Function.update (fork ms) (i :: rest) value =
      fork (Function.update ms i (Function.update (ms i) rest value)) := by
  funext key
  cases key with
  | nil => rw [Function.update_of_ne (List.cons_ne_nil i rest).symm, fork, fork]
  | cons j key =>
      rw [fork]
      by_cases hj : j = i
      · subst hj
        rw [Function.update_self]
        by_cases hkey : key = rest
        · subst hkey
          rw [Function.update_self, Function.update_self]
        · have hne : j :: key ≠ j :: rest := fun h => hkey (List.cons.inj h).2
          rw [Function.update_of_ne hne, Function.update_of_ne hkey, fork]
      · have hne : j :: key ≠ i :: rest := fun h => hj (List.cons.inj h).1
        rw [Function.update_of_ne hne, Function.update_of_ne hj, fork]

theorem fork_only_single (i : N) (key : List N) (value : V) :
    fork (only i (single key value)) = single (i :: key) value := by
  have hnone : (fun _ : List N => (none : Option V)) = fork (fun _ _ => none) := by
    funext key
    cases key with
    | nil => rfl
    | cons j key => rfl
  symm
  rw [single, hnone, update_fork]
  rfl

@[simp] theorem under_nil (m : Entries N V) : under [] m = m := rfl

theorem under_cons (i : N) (key : List N) (m : Entries N V) :
    under (i :: key) m = fork (only i (under key m)) := rfl

theorem under_append (key key' : List N) (m : Entries N V) :
    under (key ++ key') m = under key (under key' m) := by
  induction key with
  | nil => rfl
  | cons i key ih => rw [List.cons_append, under_cons, under_cons, ih]

theorem under_single (key rest : List N) (value : V) :
    under key (single rest value) = single (key ++ rest) value := by
  induction key with
  | nil => rfl
  | cons i key ih => rw [under_cons, ih, fork_only_single, List.cons_append]

theorem update_under (key rest : List N) (m : Entries N V) (value : Option V) :
    Function.update (under key m) (key ++ rest) value =
      under key (Function.update m rest value) := by
  induction key with
  | nil => rfl
  | cons i key ih =>
      rw [List.cons_append, under_cons, update_fork, only_self, ih, update_only, under_cons]

theorem under_apply (key rest : List N) (m : Entries N V) : under key m (key ++ rest) = m rest := by
  induction key with
  | nil => rfl
  | cons i key ih =>
      rw [List.cons_append, under_cons, fork, only_self]
      exact ih

theorem under_some {key k : List N} {m : Entries N V} (h : under key m k ≠ none) :
    ∃ rest, k = key ++ rest ∧ m rest ≠ none := by
  induction key generalizing k with
  | nil => exact ⟨k, rfl, h⟩
  | cons i key ih =>
      cases k with
      | nil => exact absurd rfl h
      | cons j k =>
          rw [under_cons, fork] at h
          have hj : j = i := by
            by_contra hne
            exact h (by rw [only_of_ne hne])
          subst hj
          rw [only_self] at h
          obtain ⟨rest, rfl, hrest⟩ := ih h
          exact ⟨rest, rfl, hrest⟩

end

-- where two lists part: the longest prefix they share
theorem split_common [DecidableEq N] (a b : List N) :
    ∃ shared x y, a = shared ++ x ∧ b = shared ++ y ∧
      (x = [] ∨ y = [] ∨ ∃ i j u v, x = i :: u ∧ y = j :: v ∧ i ≠ j) := by
  induction a generalizing b with
  | nil => exact ⟨[], [], b, rfl, rfl, .inl rfl⟩
  | cons i a ih =>
      cases b with
      | nil => exact ⟨[], i :: a, [], rfl, rfl, .inr (.inl rfl)⟩
      | cons j b =>
          by_cases hij : i = j
          · subst hij
            obtain ⟨shared, x, y, rfl, rfl, hpart⟩ := ih b
            exact ⟨i :: shared, x, y, rfl, rfl, hpart⟩
          · exact ⟨[], i :: a, j :: b, rfl, rfl, .inr (.inr ⟨i, j, a, b, rfl, rfl, hij⟩)⟩

section

variable (reads : P → Node N V P → Prop)

-- the form in which a set of entries has one trie only
inductive Compact : Node N V P → Prop
  | leaf (key : List N) (value : V) : Compact (.leaf key value)
  | extension {key : List N} {child : P} {children : N → Option P} (nonempty : key ≠ [])
      (read : reads child (.branch children)) (below : Compact (.branch children)) :
      Compact (.extension key child)
  | branch {children : N → Option P} (nodes : N → Node N V P)
      (read : ∀ i child, children i = some child → reads child (nodes i))
      (below : ∀ i child, children i = some child → Compact (nodes i))
      (two : ∃ i j, i ≠ j ∧ (children i).isSome ∧ (children j).isSome) :
      Compact (.branch children)

variable [DecidableEq N]

-- the entries of the trie below a node, every one of them at the same depth
inductive Spells : Nat → Node N V P → Entries N V → Prop
  | leaf {n : Nat} {key : List N} (value : V) (length : key.length = n) :
      Spells n (.leaf key value) (single key value)
  | extension {n m : Nat} {key : List N} {child : P} {node : Node N V P} {entries : Entries N V}
      (nonempty : key ≠ []) (length : n = key.length + m) (read : reads child node)
      (below : Spells m node entries) : Spells n (.extension key child) (under key entries)
  | branch {n : Nat} {children : N → Option P} (nodes : N → Node N V P)
      (entries : N → Entries N V)
      (read : ∀ i child, children i = some child → reads child (nodes i))
      (below : ∀ i child, children i = some child → Spells n (nodes i) (entries i))
      (absent : ∀ i, children i = none → entries i = fun _ => none) :
      Spells (n + 1) (.branch children) (fork entries)

end

section

variable {reads reads' : P → Node N V P → Prop}

theorem Compact.mono (hle : ∀ p node, reads p node → reads' p node) {node : Node N V P}
    (h : Compact reads node) : Compact reads' node := by
  induction h with
  | leaf key value => exact .leaf key value
  | extension nonempty read below ih => exact .extension nonempty (hle _ _ read) ih
  | branch nodes read below two ih =>
      exact .branch nodes (fun i child hc => hle _ _ (read i child hc)) ih two

variable [DecidableEq N]

theorem Spells.mono (hle : ∀ p node, reads p node → reads' p node) {n : Nat} {node : Node N V P}
    {entries : Entries N V} (h : Spells reads n node entries) : Spells reads' n node entries := by
  induction h with
  | leaf value length => exact .leaf value length
  | extension nonempty length read below ih => exact .extension nonempty length (hle _ _ read) ih
  | branch nodes entries read below absent ih =>
      exact .branch nodes entries (fun i child hc => hle _ _ (read i child hc)) ih absent

theorem Spells.leaf_inv {n : Nat} {key : List N} {value : V} {entries : Entries N V}
    (h : Spells reads n (.leaf key value) entries) : key.length = n ∧ entries = single key value := by
  cases h with
  | leaf _ length => exact ⟨length, rfl⟩

theorem Spells.extension_inv {n : Nat} {key : List N} {child : P} {entries : Entries N V}
    (h : Spells reads n (.extension key child) entries) :
    ∃ m node below, key ≠ [] ∧ n = key.length + m ∧ reads child node ∧ Spells reads m node below ∧
      entries = under key below := by
  cases h with
  | extension nonempty length read below => exact ⟨_, _, _, nonempty, length, read, below, rfl⟩

theorem Spells.branch_inv {n : Nat} {children : N → Option P} {entries : Entries N V}
    (h : Spells reads n (.branch children) entries) :
    ∃ m, ∃ nodes : N → Node N V P, ∃ below : N → Entries N V, n = m + 1 ∧
      (∀ i child, children i = some child → reads child (nodes i)) ∧
      (∀ i child, children i = some child → Spells reads m (nodes i) (below i)) ∧
      (∀ i, children i = none → below i = fun _ => none) ∧ entries = fork below := by
  cases h with
  | branch nodes entries read below absent => exact ⟨_, nodes, entries, rfl, read, below, absent, rfl⟩

theorem Spells.functional (hfun : ∀ p x y, reads p x → reads p y → x = y) {n m : Nat}
    {node : Node N V P} {entries entries' : Entries N V} (h : Spells reads n node entries)
    (h' : Spells reads m node entries') : entries = entries' := by
  induction h generalizing m entries' with
  | leaf value length =>
      obtain ⟨-, rfl⟩ := h'.leaf_inv
      rfl
  | extension nonempty length read below ih =>
      obtain ⟨k, node', below', -, -, hread, hbelow, rfl⟩ := h'.extension_inv
      rw [hfun _ _ _ hread read] at hbelow
      rw [ih hbelow]
  | @branch n children nodes entries read below absent ih =>
      obtain ⟨k, nodes', entries', -, hread, hbelow, habsent, rfl⟩ := h'.branch_inv
      refine congrArg fork (funext fun i => ?_)
      cases hc : children i with
      | none => rw [absent i hc, habsent i hc]
      | some child =>
          have hsame := hbelow i child hc
          rw [hfun _ _ _ (hread i child hc) (read i child hc)] at hsame
          exact ih i child hc hsame

theorem Spells.points {n : Nat} {node : Node N V P} {entries : Entries N V}
    (h : Spells reads n node entries) {q : P} (hq : node.Points q) :
    ∃ m child below, reads q child ∧ Spells reads m child below := by
  cases h with
  | leaf value length => exact hq.elim
  | extension nonempty length read below =>
      obtain rfl := hq
      exact ⟨_, _, _, read, below⟩
  | branch nodes entries read below absent =>
      obtain ⟨i, hi⟩ := hq
      exact ⟨_, _, _, read i q hi, below i q hi⟩

theorem not_forks_single (key : List N) (value : V) : ¬ Forks (single key value) := by
  rintro ⟨i, j, k, k', hij, hi, hj⟩
  rw [single, Function.update_apply] at hi hj
  rw [ite_ne_right_iff] at hi hj
  exact hij (List.cons.inj (hi.1.trans hj.1.symm)).1

theorem single_injective {key key' : List N} {value value' : V}
    (h : single key value = single key' value') : key = key' ∧ value = value' := by
  have hat := congrFun h key
  rw [single, single, Function.update_self, Function.update_apply] at hat
  split_ifs at hat with hkey
  exact ⟨hkey, Option.some.inj hat⟩

theorem not_forks_under {key : List N} (hkey : key ≠ []) (entries : Entries N V) :
    ¬ Forks (under key entries) := by
  rintro ⟨i, j, k, k', hij, hi, hj⟩
  obtain ⟨rest, hrest, -⟩ := under_some hi
  obtain ⟨rest', hrest', -⟩ := under_some hj
  cases key with
  | nil => exact hkey rfl
  | cons a key =>
      rw [List.cons_append] at hrest hrest'
      exact hij ((List.cons.inj hrest).1.trans (List.cons.inj hrest').1.symm)

theorem under_eq_under {key key' : List N} {entries entries' : Entries N V} (h : Forks entries)
    (h' : Forks entries') (heq : under key entries = under key' entries') :
    key = key' ∧ entries = entries' := by
  induction key generalizing key' with
  | nil =>
      cases key' with
      | nil => exact ⟨rfl, heq⟩
      | cons j key' =>
          rw [under_nil] at heq
          rw [heq] at h
          exact absurd h (not_forks_under (List.cons_ne_nil j key') entries')
  | cons i key ih =>
      cases key' with
      | nil =>
          rw [under_nil] at heq
          rw [← heq] at h'
          exact absurd h' (not_forks_under (List.cons_ne_nil i key) entries)
      | cons j key' =>
          have hsame := fork_injective heq
          obtain ⟨k, hk⟩ := h.exists_entry
          have hij : i = j := by
            by_contra hne
            have hat := congrFun (congrFun hsame i) (key ++ k)
            rw [only_self, only_of_ne hne, under_apply] at hat
            exact hk hat
          subst hij
          obtain ⟨rfl, hentries⟩ := ih (only_injective i hsame)
          exact ⟨rfl, hentries⟩

-- a forking set below a prefix has more than one entry
theorem not_forks_of_under {key key' : List N} {value : V} {entries : Entries N V}
    (h : single key value = under key' entries) : ¬ Forks entries := by
  rintro ⟨i, j, k, k', hij, hi, hj⟩
  rw [← under_apply key' _ entries, ← h, single, Function.update_apply, ite_ne_right_iff] at hi hj
  have heq := List.append_cancel_left (hi.1.trans hj.1.symm)
  exact hij (List.cons.inj heq).1

theorem Compact.exists_entry {node : Node N V P} (hfun : ∀ p x y, reads p x → reads p y → x = y)
    (h : Compact reads node) {n : Nat} {entries : Entries N V} (hs : Spells reads n node entries) :
    ∃ k, entries k ≠ none := by
  induction h generalizing n entries with
  | leaf key value =>
      obtain ⟨-, rfl⟩ := hs.leaf_inv
      refine ⟨key, ?_⟩
      rw [single, Function.update_self]
      exact Option.some_ne_none value
  | @extension key child children nonempty read below ih =>
      obtain ⟨m, node, es, -, -, hread, hbelow, rfl⟩ := hs.extension_inv
      obtain rfl := hfun _ _ _ read hread
      obtain ⟨k, hk⟩ := ih hbelow
      refine ⟨key ++ k, ?_⟩
      rwa [under_apply]
  | @branch children nodes read below two ih =>
      obtain ⟨m, ns, es, -, hread, hbelow, -, rfl⟩ := hs.branch_inv
      obtain ⟨i, -, -, hi, -⟩ := two
      obtain ⟨child, hchild⟩ := Option.isSome_iff_exists.mp hi
      have hnode := hfun _ _ _ (read i child hchild) (hread i child hchild)
      obtain ⟨k, hk⟩ := ih i child hchild (hnode ▸ hbelow i child hchild)
      exact ⟨i :: k, hk⟩

theorem Compact.forks {children : N → Option P} (hfun : ∀ p x y, reads p x → reads p y → x = y)
    (h : Compact reads (.branch children : Node N V P)) {n : Nat} {entries : Entries N V}
    (hs : Spells reads n (.branch children) entries) : Forks entries := by
  cases h with
  | branch nodes read below two =>
      obtain ⟨m, ns, es, -, hread, hbelow, -, rfl⟩ := hs.branch_inv
      have hentry {i : N} (hi : (children i).isSome) : ∃ k, es i k ≠ none := by
        obtain ⟨child, hchild⟩ := Option.isSome_iff_exists.mp hi
        have hnode := hfun _ _ _ (read i child hchild) (hread i child hchild)
        exact (below i child hchild).exists_entry hfun (hnode ▸ hbelow i child hchild)
      obtain ⟨i, j, hij, hi, hj⟩ := two
      obtain ⟨k, hk⟩ := hentry hi
      obtain ⟨k', hk'⟩ := hentry hj
      exact ⟨i, j, k, k', hij, hk, hk'⟩

-- entries have one compact trie: nodes are found by their content, so by their entries
theorem Compact.unique (hfun : ∀ p x y, reads p x → reads p y → x = y)
    (haddressed : ∀ p q x, reads p x → reads q x → p = q) {x y : Node N V P}
    (hx : Compact reads x) (hy : Compact reads y) {n : Nat} {entries : Entries N V}
    (hsx : Spells reads n x entries) (hsy : Spells reads n y entries) : x = y := by
  induction hx generalizing y n entries with
  | leaf key value =>
      obtain ⟨-, hentries⟩ := hsx.leaf_inv
      cases hy with
      | leaf key' value' =>
          obtain ⟨-, hentries'⟩ := hsy.leaf_inv
          obtain ⟨rfl, rfl⟩ := single_injective (hentries.symm.trans hentries')
          rfl
      | extension nonempty read below =>
          obtain ⟨m, node, es, -, -, hread, hbelow, rfl⟩ := hsy.extension_inv
          obtain rfl := hfun _ _ _ read hread
          exact absurd (below.forks hfun hbelow) (not_forks_of_under hentries.symm)
      | branch nodes read below two =>
          have hforks := (Compact.branch nodes read below two).forks hfun hsy
          rw [hentries] at hforks
          exact absurd hforks (not_forks_single key value)
  | @extension key child children nonempty read below ih =>
      obtain ⟨m, node, es, -, hlength, hread, hbelow, rfl⟩ := hsx.extension_inv
      obtain rfl := hfun _ _ _ read hread
      have hforks := below.forks hfun hbelow
      cases hy with
      | leaf key' value' =>
          obtain ⟨-, hentries'⟩ := hsy.leaf_inv
          exact absurd hforks (not_forks_of_under hentries'.symm)
      | @extension key' child' children' nonempty' read' below' =>
          obtain ⟨m', node', es', -, hlength', hread', hbelow', hentries⟩ := hsy.extension_inv
          obtain rfl := hfun _ _ _ read' hread'
          obtain ⟨rfl, rfl⟩ := under_eq_under hforks (below'.forks hfun hbelow') hentries
          have hm : m = m' := by omega
          subst hm
          have hnode := ih below' hbelow hbelow'
          rw [← hnode] at read'
          rw [haddressed _ _ _ read read']
      | branch nodes read' below' two =>
          have hforks' := (Compact.branch nodes read' below' two).forks hfun hsy
          exact absurd hforks' (not_forks_under nonempty es)
  | @branch children nodes read below two ih =>
      have hforks := (Compact.branch nodes read below two).forks hfun hsx
      cases hy with
      | leaf key' value' =>
          obtain ⟨-, hentries'⟩ := hsy.leaf_inv
          rw [hentries'] at hforks
          exact absurd hforks (not_forks_single key' value')
      | extension nonempty read' below' =>
          obtain ⟨m, node, es, -, -, -, -, rfl⟩ := hsy.extension_inv
          exact absurd hforks (not_forks_under nonempty es)
      | @branch children' nodes' read' below' two' =>
          obtain ⟨m, ns, es, rfl, hread, hbelow, habsent, hentries⟩ := hsx.branch_inv
          obtain ⟨m', ns', es', hm, hread', hbelow', habsent', hentries'⟩ := hsy.branch_inv
          obtain rfl := Nat.succ.inj hm
          obtain rfl := fork_injective (hentries.symm.trans hentries')
          congr 1
          funext i
          have hnode {child : P} (hc : children i = some child) : nodes i = ns i :=
            hfun _ _ _ (read i child hc) (hread i child hc)
          have hnode' {child : P} (hc : children' i = some child) : nodes' i = ns' i :=
            hfun _ _ _ (read' i child hc) (hread' i child hc)
          cases hc : children i with
          | none =>
              cases hc' : children' i with
              | none => rfl
              | some child' =>
                  obtain ⟨k, hk⟩ := (below' i child' hc').exists_entry hfun
                    (hnode' hc' ▸ hbelow' i child' hc')
                  exact absurd (congrFun (habsent i hc) k) hk
          | some child =>
              cases hc' : children' i with
              | none =>
                  obtain ⟨k, hk⟩ := (below i child hc).exists_entry hfun
                    (hnode hc ▸ hbelow i child hc)
                  exact absurd (congrFun (habsent' i hc') k) hk
              | some child' =>
                  have hsame := ih i child hc (below' i child' hc')
                    (hnode hc ▸ hbelow i child hc) (hnode' hc' ▸ hbelow' i child' hc')
                  have hr' := read' i child' hc'
                  rw [← hsame] at hr'
                  rw [haddressed _ _ _ (read i child hc) hr']

end

end Patricia
