import Kasane.Lib.BigEndian
import Kasane.Lib.OrdMap
import Kasane.Lib.Patricia

namespace Kasane.Trie

open BigEndian Patricia

abbrev Nibble := Fin 16

inductive RlpNode (H : Type) where
  | word (hash : H)
  | inline (raw : Bytes)
deriving DecidableEq

variable {H : Type}

def RlpNode.asHash : RlpNode H → Option H
  | .word hash => some hash
  | .inline _ => none

structure BranchNode (H : Type) where
  stack : List (RlpNode H)
  stateMask : BitVec 16
deriving DecidableEq

inductive TrieNode (H : Type) where
  | emptyRoot
  | leaf (key : List Nibble) (value : Bytes)
  | extension (key : List Nibble) (child : RlpNode H)
  | branch (node : BranchNode H)
deriving DecidableEq

abbrev Children (H : Type) := Nibble → Option (RlpNode H)

def fillChildren (branch : BranchNode H) : List Nibble → Nat → Children H → Children H
  | [], _, out => out
  | idx :: rest, pos, out =>
      if branch.stateMask.getLsbD idx then
        fillChildren branch rest (pos + 1) (Function.update out idx branch.stack[pos]?)
      else fillChildren branch rest pos out

def branchChildren (branch : BranchNode H) : Children H :=
  fillChildren branch (List.finRange 16) 0 (fun _ => none)

def branchChildFrom (branch : BranchNode H) (nibble : Nibble) :
    List Nibble → Nat → Option (RlpNode H)
  | [], _ => none
  | idx :: rest, pos =>
      if idx = nibble then branch.stack[pos]?
      else branchChildFrom branch nibble rest
        (if branch.stateMask.getLsbD idx then pos + 1 else pos)

def branchChild (branch : BranchNode H) (nibble : Nibble) : Option (RlpNode H) :=
  if branch.stateMask.getLsbD nibble then branchChildFrom branch nibble (List.finRange 16) 0
  else none

def presentIn (children : Children H) (indices : List Nibble) : List (Nibble × RlpNode H) :=
  indices.filterMap (fun idx => (children idx).map (fun child => (idx, child)))

def present (children : Children H) : List (Nibble × RlpNode H) :=
  presentIn children (List.finRange 16)

def setBit (mask : BitVec 16) (idx : Nibble) : BitVec 16 := mask ||| BitVec.twoPow 16 idx

def BranchNode.ofPresent (kept : List (Nibble × RlpNode H)) : BranchNode H :=
  ⟨kept.map Prod.snd, (kept.map Prod.fst).foldl setBit 0⟩

theorem getLsbD_setBit (mask : BitVec 16) (idx j : Nibble) :
    (setBit mask idx).getLsbD j = (mask.getLsbD j || decide (idx = j)) := by
  rw [setBit, BitVec.getLsbD_or, BitVec.getLsbD_twoPow]
  simp [idx.isLt, Fin.ext_iff]

theorem getLsbD_foldl (indices : List Nibble) (mask : BitVec 16) (j : Nibble) :
    (indices.foldl setBit mask).getLsbD j = (mask.getLsbD j || decide (j ∈ indices)) := by
  induction indices generalizing mask with
  | nil => simp
  | cons idx indices ih =>
      rw [List.foldl_cons, ih, getLsbD_setBit]
      by_cases hj : idx = j
      · simp [hj]
      · simp [hj, Ne.symm hj]

theorem presentIn_cons (children : Children H) (idx : Nibble) (indices : List Nibble) :
    presentIn children (idx :: indices) =
      ((children idx).map (fun child => (idx, child))).toList ++ presentIn children indices := by
  rw [presentIn, List.filterMap_cons]
  cases hc : children idx with
  | none => rfl
  | some child => rfl

theorem mem_presentIn {children : Children H} {indices : List Nibble} {e : Nibble × RlpNode H} :
    e ∈ presentIn children indices ↔ e.1 ∈ indices ∧ children e.1 = some e.2 := by
  rw [presentIn, List.mem_filterMap]
  constructor
  · rintro ⟨idx, hidx, he⟩
    obtain ⟨child, hchild, rfl⟩ := Option.map_eq_some_iff.mp he
    exact ⟨hidx, hchild⟩
  · rintro ⟨hidx, he⟩
    exact ⟨e.1, hidx, by rw [he]; rfl⟩

theorem mem_present {children : Children H} {e : Nibble × RlpNode H} :
    e ∈ present children ↔ children e.1 = some e.2 := by
  rw [present, mem_presentIn]
  simp

theorem nodup_present (children : Children H) : ((present children).map Prod.fst).Nodup := by
  have hsub : (present children).map Prod.fst = (List.finRange 16).filter (fun i => (children i).isSome) := by
    rw [present, presentIn, List.map_filterMap, ← List.filterMap_eq_filter]
    refine List.filterMap_congr (fun i _ => ?_)
    cases hc : children i <;> simp [Option.guard, hc]
  rw [hsub]
  exact (List.nodup_finRange 16).filter _

theorem bit_ofPresent (children : Children H) (j : Nibble) :
    (BranchNode.ofPresent (present children)).stateMask.getLsbD j = (children j).isSome := by
  change ((List.map Prod.fst (present children)).foldl setBit 0).getLsbD j = _
  rw [getLsbD_foldl]
  have hmem : j ∈ (present children).map Prod.fst ↔ (children j).isSome := by
    rw [List.mem_map, Option.isSome_iff_exists]
    constructor
    · rintro ⟨e, he, rfl⟩
      exact ⟨e.2, mem_present.mp he⟩
    · rintro ⟨child, hchild⟩
      exact ⟨(j, child), mem_present.mpr hchild, rfl⟩
  cases hc : (children j).isSome <;> simp_all

theorem fillChildren_ofPresent (children : Children H) (indices : List Nibble)
    (before : List (RlpNode H)) (branch : BranchNode H)
    (hmask : ∀ j : Nibble, branch.stateMask.getLsbD j = (children j).isSome)
    (hstack : branch.stack = before ++ (presentIn children indices).map Prod.snd)
    (hnodup : indices.Nodup) (out : Children H) :
    fillChildren branch indices before.length out =
      fun j => if j ∈ indices then (children j).or (out j) else out j := by
  induction indices generalizing before out with
  | nil =>
      funext j
      simp [fillChildren]
  | cons idx indices ih =>
      obtain ⟨hnot, hrest⟩ := List.nodup_cons.mp hnodup
      rw [presentIn_cons] at hstack
      rw [fillChildren, hmask]
      cases hc : children idx with
      | none =>
          rw [hc] at hstack
          rw [if_neg (by simp), ih before hstack hrest]
          funext j
          by_cases hj : j = idx
          · subst hj
            simp [hnot, hc]
          · simp [hj]
      | some child =>
          rw [hc] at hstack
          have hstack' : branch.stack = (before ++ [child]) ++
              (presentIn children indices).map Prod.snd := by
            rw [hstack]
            simp
          have hat : branch.stack[before.length]? = some child := by
            rw [hstack]
            simp
          have hlen : before.length + 1 = (before ++ [child]).length := by simp
          rw [Option.isSome_some, if_pos rfl, hat, hlen, ih (before ++ [child]) hstack' hrest]
          funext j
          by_cases hj : j = idx
          · subst hj
            simp [hnot, hc]
          · simp [hj]

theorem branchChildren_ofPresent (children : Children H) :
    branchChildren (.ofPresent (present children)) = children := by
  rw [branchChildren]
  have hfill := fillChildren_ofPresent children (List.finRange 16) [] (.ofPresent (present children))
    (bit_ofPresent children) rfl (List.nodup_finRange 16) (fun _ => none)
  rw [List.length_nil] at hfill
  rw [hfill]
  funext j
  simp

theorem branchChildFrom_ofPresent (children : Children H) (indices : List Nibble)
    (before : List (RlpNode H)) (branch : BranchNode H)
    (hmask : ∀ j : Nibble, branch.stateMask.getLsbD j = (children j).isSome)
    (hstack : branch.stack = before ++ (presentIn children indices).map Prod.snd)
    {nibble : Nibble} (hmem : nibble ∈ indices) {child : RlpNode H}
    (hchild : children nibble = some child) :
    branchChildFrom branch nibble indices before.length = some child := by
  induction indices generalizing before with
  | nil => exact absurd hmem List.not_mem_nil
  | cons idx indices ih =>
      rw [presentIn_cons] at hstack
      rw [branchChildFrom]
      by_cases hidx : idx = nibble
      · subst hidx
        rw [hchild] at hstack
        rw [if_pos rfl, hstack]
        simp
      · rw [if_neg hidx, hmask]
        have htail : nibble ∈ indices := (List.mem_cons.mp hmem).resolve_left (Ne.symm hidx)
        cases hc : children idx with
        | none =>
            rw [hc] at hstack
            exact ih before hstack htail
        | some sibling =>
            rw [hc] at hstack
            have hlen : before.length + 1 = (before ++ [sibling]).length := by simp
            rw [Option.isSome_some, if_pos rfl, hlen]
            refine ih (before ++ [sibling]) ?_ htail
            rw [hstack]
            simp

theorem branchChild_ofPresent (children : Children H) (nibble : Nibble) :
    branchChild (.ofPresent (present children)) nibble = children nibble := by
  rw [branchChild, bit_ofPresent]
  cases hc : children nibble with
  | none => rfl
  | some child =>
      rw [Option.isSome_some, if_pos rfl]
      exact branchChildFrom_ofPresent children (List.finRange 16) [] _ (bit_ofPresent children) rfl
        (List.mem_finRange nibble) hc

-- the node library outside the repository: how a node is laid out, read back and hashed
structure NodeCodec (H : Type) where
  encode : TrieNode H → Bytes
  decode : Bytes → Option (TrieNode H)
  hash : Bytes → H

abbrev PathNode (H : Type) := Node Nibble Bytes (RlpNode H)

def TrieNode.ofPath : PathNode H → TrieNode H
  | .leaf key value => .leaf key value
  | .extension key child => .extension key child
  | .branch children => .branch (.ofPresent (present children))

theorem ofPath_injective : Function.Injective (TrieNode.ofPath (H := H)) := by
  intro x y h
  cases x with
  | leaf key value =>
      cases y with
      | leaf key' value' =>
          obtain ⟨rfl, rfl⟩ := TrieNode.leaf.inj h
          rfl
      | extension key' child => cases h
      | branch children => cases h
  | extension key child =>
      cases y with
      | leaf key' value' => cases h
      | extension key' child' =>
          obtain ⟨rfl, rfl⟩ := TrieNode.extension.inj h
          rfl
      | branch children => cases h
  | branch children =>
      cases y with
      | leaf key' value' => cases h
      | extension key' child' => cases h
      | branch children' =>
          have hsame := congrArg branchChildren (TrieNode.branch.inj h)
          rw [branchChildren_ofPresent, branchChildren_ofPresent] at hsame
          rw [hsame]

namespace NodeCodec

variable (codec : NodeCodec H)

def rlp (node : TrieNode H) : RlpNode H :=
  if (codec.encode node).length < 32 then .inline (codec.encode node)
  else .word (codec.hash (codec.encode node))

-- the pointers a node may hold: a hash, or a short node in full
inductive Child : RlpNode H → Prop
  | word (hash : H) : Child (.word hash)
  | inline (node : PathNode H) (children : ∀ p, node.Points p → Child p) :
      Child (.inline (codec.encode (.ofPath node)))

def Sound (node : PathNode H) : Prop := ∀ p, node.Points p → codec.Child p

structure Lawful : Prop where
  decode_encode : ∀ node, codec.Sound node →
    codec.decode (codec.encode (.ofPath node)) = some (.ofPath node)
  decode_empty : codec.decode (codec.encode .emptyRoot) = some .emptyRoot
  hash_injective : Function.Injective codec.hash

end NodeCodec

variable {codec : NodeCodec H}

theorem NodeCodec.Lawful.encode_injective (h : codec.Lawful) {x y : PathNode H}
    (hx : codec.Sound x) (hy : codec.Sound y)
    (heq : codec.encode (.ofPath x) = codec.encode (.ofPath y)) : x = y := by
  have hdecode := h.decode_encode x hx
  rw [heq, h.decode_encode y hy] at hdecode
  exact (ofPath_injective (Option.some.inj hdecode)).symm

theorem NodeCodec.Sound.child {node : PathNode H} (h : codec.Sound node) :
    codec.Child (codec.rlp (.ofPath node)) := by
  rw [NodeCodec.rlp]
  split_ifs
  · exact .inline node h
  · exact .word _

end Kasane.Trie
