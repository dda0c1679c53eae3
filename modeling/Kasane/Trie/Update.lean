import Kasane.Trie.Node

namespace Kasane.Trie

open BigEndian Patricia

structure NodeRecord where
  refcnt : Nat
  rlp : Bytes
deriving DecidableEq

variable {H : Type} [LinearOrder H]

def addDelta (counts : OrdMap H Int) (hash : H) (delta : Int) : OrdMap H Int :=
  if (counts.get hash).getD 0 + delta = 0 then counts.remove hash
  else counts.insert hash ((counts.get hash).getD 0 + delta)

structure JournalBuilder (H : Type) [LinearOrder H] where
  nodeDb : OrdMap H NodeRecord
  nodeDeltaCounts : OrdMap H Int
  newNodeRecords : OrdMap H Bytes

def JournalBuilder.new (nodeDb : OrdMap H NodeRecord) : JournalBuilder H := ⟨nodeDb, .empty, .empty⟩

structure KvOp where
  key : List Nibble
  value : Option Bytes
deriving DecidableEq

def commonPrefixLength : List Nibble → List Nibble → Nat
  | a :: x, b :: y => if a = b then commonPrefixLength x y + 1 else 0
  | _, _ => 0

variable (codec : NodeCodec H)

namespace JournalBuilder

def record (b : JournalBuilder H) (hash : H) : Option Bytes :=
  match b.newNodeRecords.get hash with
  | some raw => some raw
  | none => (b.nodeDb.get hash).map NodeRecord.rlp

def resolvePtr (b : JournalBuilder H) : RlpNode H → Option (TrieNode H)
  | .word hash => (b.record hash).bind codec.decode
  | .inline raw => codec.decode raw

def emitNode (b : JournalBuilder H) (node : TrieNode H) : RlpNode H × JournalBuilder H :=
  match codec.rlp node with
  | .word hash =>
      (.word hash, { b with newNodeRecords := b.newNodeRecords.orInsert hash (codec.encode node) })
  | .inline raw => (.inline raw, b)

def replacePtr (b : JournalBuilder H) (oldPtr newPtr : Option (RlpNode H)) : JournalBuilder H :=
  let oldHash := oldPtr.bind RlpNode.asHash
  let newHash := newPtr.bind RlpNode.asHash
  if oldHash = newHash then b
  else
    let counts := match oldHash with
      | some old => addDelta b.nodeDeltaCounts old (-1)
      | none => b.nodeDeltaCounts
    { b with nodeDeltaCounts := match newHash with
        | some new => addDelta counts new 1
        | none => counts }

end JournalBuilder

open JournalBuilder

-- a pointer, or none, and the builder that holds its records
abbrev Built (H : Type) [LinearOrder H] := Option (RlpNode H) × JournalBuilder H

def emitSome (b : JournalBuilder H) (node : TrieNode H) : Built H :=
  (some (b.emitNode codec node).1, (b.emitNode codec node).2)

def emitValue (b : JournalBuilder H) (rest : List Nibble) : Option Bytes → Built H
  | none => (none, b)
  | some value => emitSome codec b (.leaf rest value)

def replaced (oldPtr : RlpNode H) (r : Built H) : Built H :=
  (r.1, r.2.replacePtr (some oldPtr) r.1)

def absorb (idx : Nibble) (child : RlpNode H) : Option (TrieNode H) → TrieNode H
  | some (.leaf key value) => .leaf (idx :: key) value
  | some (.extension key grandchild) => .extension (idx :: key) grandchild
  | _ => .extension [idx] child

def collapseChildren (b : JournalBuilder H) (children : Children H) : Built H :=
  match present children with
  | [] => (none, b)
  | [(idx, child)] => emitSome codec b (absorb idx child (b.resolvePtr codec child))
  | kept => emitSome codec b (.branch (.ofPresent kept))

def placeLeaf (suffix : List Nibble) (value : Bytes) (x : Children H × JournalBuilder H) :
    Children H × JournalBuilder H :=
  match suffix with
  | [] => x
  | idx :: tail =>
      let r := x.2.emitNode codec (.leaf tail value)
      (Function.update x.1 idx (some r.1), r.2)

def placeValue (suffix : List Nibble) (value : Option Bytes) (x : Children H × JournalBuilder H) :
    Children H × JournalBuilder H :=
  match value with
  | none => x
  | some v => placeLeaf codec suffix v x

def placeExtension (suffix : List Nibble) (child : RlpNode H) (x : Children H × JournalBuilder H) :
    Children H × JournalBuilder H :=
  match suffix with
  | [] => x
  | [idx] => (Function.update x.1 idx (some child), x.2)
  | idx :: tail =>
      let r := x.2.emitNode codec (.extension tail child)
      (Function.update x.1 idx (some r.1), r.2)

def withPrefix (shared : List Nibble) (r : Built H) : Built H :=
  match r.1 with
  | none => r
  | some child => if shared = [] then r else emitSome codec r.2 (.extension shared child)

def updateLeaf (b : JournalBuilder H) (oldPtr : RlpNode H) (leafKey : List Nibble)
    (leafValue : Bytes) (rest : List Nibble) (value : Option Bytes) : Built H :=
  let common := commonPrefixLength leafKey rest
  if common = leafKey.length ∧ common = rest.length then
    match value with
    | none => replaced oldPtr (none, b)
    | some v =>
        if leafValue = v then (some oldPtr, b)
        else replaced oldPtr (emitSome codec b (.leaf leafKey v))
  else
    let x := placeLeaf codec (leafKey.drop common) leafValue (fun _ => none, b)
    let x := placeValue codec (rest.drop common) value x
    replaced oldPtr (withPrefix codec (rest.take common) (collapseChildren codec x.2 x.1))

def updateExtension
    (updateAt : JournalBuilder H → Option (RlpNode H) → Nat → Option (Built H))
    (b : JournalBuilder H) (oldPtr : RlpNode H) (extKey : List Nibble) (extChild : RlpNode H)
    (key : List Nibble) (depth : Nat) (value : Option Bytes) : Option (Built H) :=
  let rest := key.drop depth
  let common := commonPrefixLength extKey rest
  if common = extKey.length then
    (updateAt b (some extChild) (depth + common)).map
      (fun r => replaced oldPtr (withPrefix codec extKey r))
  else
    let x := placeExtension codec (extKey.drop common) extChild (fun _ => none, b)
    let x := placeValue codec (rest.drop common) value x
    some (replaced oldPtr (withPrefix codec (rest.take common) (collapseChildren codec x.2 x.1)))

def updateBranch
    (updateAt : JournalBuilder H → Option (RlpNode H) → Nat → Option (Built H))
    (b : JournalBuilder H) (oldPtr : RlpNode H) (branch : BranchNode H) (key : List Nibble)
    (depth : Nat) : Option (Built H) :=
  match key.drop depth with
  | [] => some (some oldPtr, b)
  | index :: _ =>
      let children := branchChildren branch
      (updateAt b (children index) (depth + 1)).map (fun r =>
        replaced oldPtr (collapseChildren codec r.2 (Function.update children index r.1)))

-- the source recurses along the pointers; the fuel bounds the steps that do
def updateAt : Nat → JournalBuilder H → Option (RlpNode H) → List Nibble → Nat → Option Bytes →
    Option (Built H)
  | 0, _, _, _, _, _ => none
  | fuel + 1, b, nodePtr, key, depth, value =>
      let rest := key.drop depth
      match nodePtr with
      | none => some (emitValue codec b rest value)
      | some ptr =>
          match b.resolvePtr codec ptr with
          | none => some (some ptr, b)
          | some .emptyRoot => some (emitValue codec b rest value)
          | some (.leaf leafKey leafValue) =>
              some (updateLeaf codec b ptr leafKey leafValue rest value)
          | some (.extension extKey extChild) =>
              updateExtension codec (fun b p depth => updateAt fuel b p key depth value) b ptr extKey
                extChild key depth value
          | some (.branch branch) =>
              updateBranch codec (fun b p depth => updateAt fuel b p key depth value) b ptr branch key
                depth

def applyOp (b : JournalBuilder H) (root : Option (RlpNode H)) (op : KvOp) : Option (Built H) :=
  (updateAt codec (op.key.length + 1) b root op.key 0 op.value).map
    (fun r => (r.1, r.2.replacePtr root r.1))

def applyOps (r : Built H) (ops : List KvOp) : Option (Built H) :=
  ops.foldlM (fun r op => applyOp codec r.2 r.1 op) r

end Kasane.Trie
