import Kasane.Trie.Journal

namespace Kasane.Trie

open BigEndian Patricia

instance plainOrder : LinearOrder Bytes := LinearOrder.lift' digits digits_injective

-- every byte is marked, and a list ends where the mark stops
def plainBytes (bs : Bytes) : Bytes := bs.flatMap (fun b => [1, b]) ++ [0]

def readBytes : Bytes → Option (Bytes × Bytes)
  | 0 :: rest => some ([], rest)
  | _ :: b :: rest => (readBytes rest).map (fun r => (b :: r.1, r.2))
  | _ => none

def plainKey (key : List Nibble) : Bytes := plainBytes (key.map (fun i => UInt8.ofNat i.val))

def readKey (raw : Bytes) : Option (List Nibble × Bytes) :=
  (readBytes raw).map (fun r =>
    (r.1.filterMap (fun b => if h : b.toNat < 16 then some ⟨b.toNat, h⟩ else none), r.2))

def plainPtr : RlpNode Bytes → Bytes
  | .word hash => 0 :: plainBytes hash
  | .inline raw => 1 :: plainBytes raw

def readPtr : Bytes → Option (RlpNode Bytes × Bytes)
  | 0 :: raw => (readBytes raw).map (fun r => (.word r.1, r.2))
  | _ :: raw => (readBytes raw).map (fun r => (.inline r.1, r.2))
  | [] => none

def plainChild : Option (RlpNode Bytes) → Bytes
  | none => [0]
  | some ptr => 1 :: plainPtr ptr

def readChildren : Nat → Bytes → Option (List (Option (RlpNode Bytes)))
  | 0, _ => some []
  | n + 1, 0 :: raw => (readChildren n raw).map (none :: ·)
  | n + 1, _ :: raw => (readPtr raw).bind (fun r => (readChildren n r.2).map (some r.1 :: ·))
  | _ + 1, [] => none

def plainNode : TrieNode Bytes → Bytes
  | .emptyRoot => [0]
  | .leaf key value => 1 :: (plainKey key ++ plainBytes value)
  | .extension key child => 2 :: (plainKey key ++ plainPtr child)
  | .branch branch => 3 :: (List.ofFn (branchChildren branch)).flatMap plainChild

def readNode : Bytes → Option (TrieNode Bytes)
  | 0 :: _ => some .emptyRoot
  | 1 :: raw => (readKey raw).bind (fun r => (readBytes r.2).map (fun v => .leaf r.1 v.1))
  | 2 :: raw => (readKey raw).bind (fun r => (readPtr r.2).map (fun p => .extension r.1 p.1))
  | _ :: raw => (readChildren 16 raw).map (fun l =>
      .branch (.ofPresent (present (fun i => (l[i.val]?).join))))
  | [] => none

def plainCodec : NodeCodec Bytes := ⟨plainNode, readNode, id⟩

theorem readBytes_plain (bs rest : Bytes) : readBytes (plainBytes bs ++ rest) = some (bs, rest) := by
  induction bs with
  | nil => rfl
  | cons b bs ih =>
      have hplain : plainBytes (b :: bs) ++ rest = 1 :: b :: (plainBytes bs ++ rest) := rfl
      rw [hplain, readBytes, ih]
      · rfl
      · decide

theorem readKey_plain (key : List Nibble) (rest : Bytes) :
    readKey (plainKey key ++ rest) = some (key, rest) := by
  have hbyte : (fun b : UInt8 => if h : b.toNat < 16 then some (⟨b.toNat, h⟩ : Nibble) else none) ∘
      (fun i : Nibble => UInt8.ofNat i.val) = some := by
    funext i
    revert i
    decide
  rw [readKey, plainKey, readBytes_plain, Option.map_some, List.filterMap_map, hbyte,
    List.filterMap_some]

theorem readPtr_plain (ptr : RlpNode Bytes) (rest : Bytes) :
    readPtr (plainPtr ptr ++ rest) = some (ptr, rest) := by
  cases ptr with
  | word hash =>
      rw [plainPtr, List.cons_append, readPtr, readBytes_plain]
      rfl
  | inline raw =>
      rw [plainPtr, List.cons_append, readPtr, readBytes_plain]
      · rfl
      · decide

theorem readChildren_plain (l : List (Option (RlpNode Bytes))) (rest : Bytes) :
    readChildren l.length (l.flatMap plainChild ++ rest) = some l := by
  induction l with
  | nil => rfl
  | cons child l ih =>
      rw [List.flatMap_cons, List.append_assoc, List.length_cons]
      cases child with
      | none =>
          rw [plainChild, List.singleton_append, readChildren, ih]
          rfl
      | some ptr =>
          rw [plainChild, List.cons_append, readChildren, readPtr_plain, Option.bind_some, ih]
          · rfl
          · decide

theorem plain_lawful : plainCodec.Lawful where
  decode_encode := by
    intro node _
    cases node with
    | leaf key value =>
        have hread := readBytes_plain value []
        rw [List.append_nil] at hread
        change (readKey (plainKey key ++ plainBytes value)).bind _ = _
        rw [readKey_plain, Option.bind_some, hread]
        rfl
    | extension key child =>
        have hread := readPtr_plain child []
        rw [List.append_nil] at hread
        change (readKey (plainKey key ++ plainPtr child)).bind _ = _
        rw [readKey_plain, Option.bind_some, hread]
        rfl
    | branch children =>
        have hread := readChildren_plain (List.ofFn children) []
        rw [List.append_nil, List.length_ofFn] at hread
        change (readChildren 16 ((List.ofFn (branchChildren (.ofPresent (present children)))).flatMap
          plainChild)).map _ = _
        rw [branchChildren_ofPresent, hread, Option.map_some]
        refine congrArg (fun cs => some (TrieNode.branch (.ofPresent (present cs)))) (funext fun i => ?_)
        rw [List.getElem?_ofFn, dif_pos i.isLt]
        rfl
  decode_empty := rfl
  hash_injective := Function.injective_id

def plainAccount (account : TrieAccount Bytes) : Bytes :=
  encode 8 account.nonce ++ encode 32 account.balance ++ plainBytes account.storageRoot ++
    account.codeHash.toList

def plainState : StateCodec Bytes := ⟨plainCodec, [], encode 32, plainAccount⟩

end Kasane.Trie
