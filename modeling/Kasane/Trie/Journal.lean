import Kasane.Exec.Db
import Kasane.Lib.Word
import Kasane.Trie.Roots

namespace Kasane.Trie

open BigEndian Chain Exec JournalBuilder

section

open Word

variable {H : Type} [LinearOrder H]

structure AnchorDelta (H : Type) where
  stateRootOld : Option H
  stateRootNew : Option H
  storageRootOld : List H
  storageRootNew : List H

def AnchorDelta.default : AnchorDelta H := ⟨none, none, [], []⟩

structure JournalUpdate (H : Type) [LinearOrder H] where
  nodeDeltaCounts : OrdMap H Int
  newNodeRecords : OrdMap H Bytes
  anchorDelta : AnchorDelta H

structure GcState where
  enqueueSeq : Nat
  dequeueSeq : Nat
  len : Nat
deriving DecidableEq

def GcState.new : GcState := ⟨0, 0, 0⟩

-- the metrics that the node store itself keeps
structure NodeMetrics where
  nodeDbEntries : Nat
  nodeDbReachable : Nat
  nodeDbUnreachable : Nat
  gcProgress : Nat
deriving DecidableEq

structure NodeStore (H : Type) [LinearOrder H] where
  nodeDb : OrdMap H NodeRecord
  gcQueue : OrdMap Nat H
  gcState : GcState
  metrics : NodeMetrics
  needsMigration : Bool

def NodeStore.empty : NodeStore H := ⟨.empty, .empty, .new, ⟨0, 0, 0, 0⟩, false⟩

def addAnchors (counts : OrdMap H Int) (hashes : List H) (delta : Int) : OrdMap H Int :=
  hashes.foldl (fun counts hash => addDelta counts hash delta) counts

def mergeAnchorDelta (counts : OrdMap H Int) (anchors : AnchorDelta H) : OrdMap H Int :=
  let counts := addAnchors counts anchors.stateRootOld.toList (-1)
  let counts := addAnchors counts anchors.stateRootNew.toList 1
  let counts := addAnchors counts anchors.storageRootOld (-1)
  addAnchors counts anchors.storageRootNew 1

namespace NodeStore

def putRecord (s : NodeStore H) (e : H × Bytes) : NodeStore H :=
  match s.nodeDb.get e.1 with
  | some existing =>
      if existing.rlp = e.2 then s else { s with nodeDb := s.nodeDb.insert e.1 ⟨0, e.2⟩ }
  | none => { s with nodeDb := s.nodeDb.insert e.1 ⟨0, e.2⟩ }

def enqueueGcHash (s : NodeStore H) (hash : H) : NodeStore H :=
  { s with
    gcQueue := s.gcQueue.insert s.gcState.enqueueSeq hash
    gcState := { s.gcState with
      enqueueSeq := saturatingAdd u64Max s.gcState.enqueueSeq 1
      len := saturatingAdd u64Max s.gcState.len 1 } }

-- the count of a record is a u32, and never negative
def nextCount (refcnt : Nat) (delta : Int) : Nat := (max ((refcnt : Int) + delta) 0).toNat % 2 ^ 32

def countRecord (emptyRoot : H) (s : NodeStore H) (e : H × Int) : NodeStore H :=
  if e.2 = 0 then s
  else
    match s.nodeDb.get e.1 with
    | none =>
        if 0 < e.2 ∧ e.1 ≠ emptyRoot then { s with needsMigration := true } else s
    | some record =>
        let next := nextCount record.refcnt e.2
        let s := if 0 < record.refcnt ∧ next = 0 then s.enqueueGcHash e.1 else s
        { s with nodeDb := s.nodeDb.insert e.1 { record with refcnt := next } }

def collect (s : NodeStore H) (hash : H) : NodeStore H :=
  match s.nodeDb.get hash with
  | some record => if record.refcnt = 0 then { s with nodeDb := s.nodeDb.remove hash } else s
  | none => s

def gcStep (s : NodeStore H) : NodeStore H :=
  let seq := s.gcState.dequeueSeq
  let s := match s.gcQueue.get seq with
    | some hash => ({ s with gcQueue := s.gcQueue.remove seq } : NodeStore H).collect hash
    | none => s
  { s with gcState := { s.gcState with
      dequeueSeq := saturatingAdd u64Max s.gcState.dequeueSeq 1
      len := s.gcState.len - 1 } }

def runGcTick : Nat → NodeStore H → NodeStore H
  | 0, s => s
  | maxSteps + 1, s => if 0 < s.gcState.len then runGcTick maxSteps s.gcStep else s

def refreshMetrics (s : NodeStore H) : NodeStore H :=
  { s with metrics := {
      nodeDbEntries := s.nodeDb.len
      nodeDbReachable := s.nodeDb.entries.countP (fun e => decide (0 < e.2.refcnt))
      nodeDbUnreachable := s.nodeDb.entries.countP (fun e => decide (e.2.refcnt = 0))
      gcProgress := s.gcState.dequeueSeq } }

def applyJournal (emptyRoot : H) (s : NodeStore H) (journal : JournalUpdate H) : NodeStore H :=
  let counts := mergeAnchorDelta journal.nodeDeltaCounts journal.anchorDelta
  let s := journal.newNodeRecords.entries.foldl putRecord s
  let s := counts.entries.foldl (countRecord emptyRoot) s
  (runGcTick 256 s).refreshMetrics

end NodeStore

end

structure TrieAccount (H : Type) where
  nonce : Nat
  balance : Nat
  storageRoot : H
  codeHash : ByteArr 32

-- what the library lays out: nodes, storage values and accounts
structure StateCodec (H : Type) extends NodeCodec H where
  zeroHash : H
  encodeU256 : Nat → Bytes
  encodeAccount : TrieAccount H → Bytes

structure AccountDelta where
  deleted : Bool
  nonce : Nat
  balance : Nat
  codeHash : ByteArr 32
  storage : OrdMap Nat (Option Nat)

def AccountDelta.default : AccountDelta := ⟨false, 0, 0, zeroArr 32, .empty⟩

abbrev TrieDelta := OrdMap Address AccountDelta

structure StorageRootUpdate (H : Type) where
  addr : Address
  storageRoot : Option H

-- the trie's part of the stable state
structure TrieState (H : Type) [LinearOrder H] where
  stateRoot : H
  storageRoots : OrdMap Address H
  store : NodeStore H

structure TrieUpdateJournal (H : Type) [LinearOrder H] where
  stateRoot : H
  storageUpdates : List (StorageRootUpdate H)
  nodeDeltaCounts : OrdMap H Int
  newNodeRecords : OrdMap H Bytes
  updatedAccountLeafHashes : OrdMap Address H
  anchorDelta : AnchorDelta H

def unpack (bytes : Bytes) : List Nibble :=
  bytes.flatMap (fun b => [Fin.ofNat 16 (b.toNat / 16), Fin.ofNat 16 (b.toNat % 16)])

def addrSet (addrs : List Address) : OrdMap Address Unit :=
  addrs.foldl (fun m addr => m.insert addr ()) .empty

def sortByKey (ops : List KvOp) : List KvOp := ops.mergeSort (fun a b => decide (a.key ≤ b.key))

section

variable (c : Crypto)

def addrKey (addr : Address) : List Nibble := unpack (c.keccak256 addr.toList).toList

def slotKey (slot : Nat) : List Nibble := unpack (c.keccak256 (encode 32 slot)).toList

def normalizeCodeHash (codeHash : ByteArr 32) : ByteArr 32 :=
  if codeHash = zeroArr 32 then keccakEmpty c else codeHash

def mergeSlot (storage : OrdMap Nat (Option Nat)) (e : Nat × EvmStorageSlot) :
    OrdMap Nat (Option Nat) :=
  if e.2.originalValue = e.2.presentValue then storage
  else storage.insert e.1 (if e.2.presentValue = 0 then none else some e.2.presentValue)

def mergeAccount (delta : TrieDelta) (e : Address × Account) : TrieDelta :=
  delta.insert e.1
    { deleted := e.2.selfdestructed || (e.2.info.isEmpty c && e.2.touched)
      nonce := e.2.info.nonce
      balance := e.2.info.balance
      codeHash := e.2.info.codeHash
      storage := e.2.storage.entries.foldl mergeSlot
        ((delta.get e.1).getD AccountDelta.default).storage }

def buildTrieDelta (stateDiffs : List StateDiff) : TrieDelta :=
  stateDiffs.foldl (fun delta diff => diff.entries.foldl (mergeAccount c) delta) .empty

variable {H : Type} [LinearOrder H] (codec : StateCodec H)

def emptyRoot : H := emptyRootHash codec.toNodeCodec

def isEmptyTrieAccount (account : TrieAccount H) : Bool :=
  decide (account.nonce = 0 ∧ account.balance = 0 ∧ account.storageRoot = emptyRoot codec ∧
    account.codeHash = keccakEmpty c)

def storageOp (e : Nat × Option Nat) : KvOp := ⟨slotKey c e.1, e.2.map codec.encodeU256⟩

def collectStorageOpsFromState (db : RevmStableDb) (addr : Address) : List KvOp :=
  sortByKey ((db.storage.entries.filter (fun e => decide (e.1.address = addr))).map
    (fun e => storageOp c codec (e.1.slot, some e.2)))

def accountAfter (delta : AccountDelta) (storageRoot : H) : Option (TrieAccount H) :=
  if delta.deleted then none
  else
    let account : TrieAccount H :=
      ⟨delta.nonce, delta.balance, storageRoot, normalizeCodeHash c delta.codeHash⟩
    if isEmptyTrieAccount c codec account then none else some account

def accountFromState (db : RevmStableDb) (addr : Address) (storageRoot : H) :
    Option (TrieAccount H) :=
  let account : TrieAccount H := match db.accounts.get addr with
    | some a => ⟨a.nonce, a.balance, storageRoot, normalizeCodeHash c a.codeHash⟩
    | none => ⟨0, 0, storageRoot, keccakEmpty c⟩
  if isEmptyTrieAccount c codec account then none else some account

def accountOp (addr : Address) (account : Option (TrieAccount H)) : KvOp :=
  ⟨addrKey c addr, account.map codec.encodeAccount⟩

def forceRootRecord (b : JournalBuilder H) (root : H) (ptr : Option (RlpNode H)) :
    JournalBuilder H :=
  if root = emptyRoot codec then b
  else
    match b.newNodeRecords.get root with
    | some _ => b
    | none =>
        match b.nodeDb.get root with
        | some record => { b with newNodeRecords := b.newNodeRecords.insert root record.rlp }
        | none =>
            match ptr with
            | some (.inline raw) => { b with newNodeRecords := b.newNodeRecords.insert root raw }
            | _ => b

-- the roots that the pass over the storage tries has reached
structure StoragePass (H : Type) [LinearOrder H] where
  builder : JournalBuilder H
  ptrAfter : OrdMap Address (Option (RlpNode H))
  updates : List (StorageRootUpdate H)

def StoragePass.rootAfter (x : StoragePass H) (addr : Address) : Option H :=
  (x.ptrAfter.get addr).map (ptrToRoot codec.toNodeCodec)

def storedRoot (t : TrieState H) (addr : Address) : H :=
  (t.storageRoots.get addr).getD (emptyRoot codec)

def newStoragePtr (db : RevmStableDb) (t : TrieState H) (delta : TrieDelta)
    (touchedAddrs : List Address) (b : JournalBuilder H) (addr : Address) : Option (Built H) :=
  let oldPtr := rootToPtr codec.toNodeCodec (storedRoot codec t addr)
  let rebuilt := if addr ∈ touchedAddrs then
      applyOps codec.toNodeCodec (none, b) (collectStorageOpsFromState c codec db addr)
    else some (oldPtr, b)
  match delta.get addr with
  | none => rebuilt
  | some d =>
      if d.deleted then some (none, b)
      else if d.storage.entries = [] then rebuilt
      else applyOps codec.toNodeCodec (oldPtr, b)
        (sortByKey (d.storage.entries.map (storageOp c codec)))

def storageStep (db : RevmStableDb) (t : TrieState H) (delta : TrieDelta)
    (touchedAddrs : List Address) (x : StoragePass H) (addr : Address) : Option (StoragePass H) :=
  (newStoragePtr c codec db t delta touchedAddrs x.builder addr).map (fun r =>
    let newRoot := ptrToRoot codec.toNodeCodec r.1
    { builder := r.2
      ptrAfter := x.ptrAfter.insert addr r.1
      updates := if newRoot = storedRoot codec t addr then x.updates
        else x.updates ++ [⟨addr, if newRoot = emptyRoot codec then none else some newRoot⟩] })

def targetStorageAddrs (delta : TrieDelta) (touchedAddrs : List Address) : List Address :=
  (addrSet (touchedAddrs ++ (delta.entries.filter (fun e => e.2.deleted ||
    decide (e.2.storage.entries ≠ []))).map Prod.fst)).keys

def targetAccountAddrs (delta : TrieDelta) (touchedAddrs : List Address)
    (updates : List (StorageRootUpdate H)) : List Address :=
  (addrSet (delta.keys ++ touchedAddrs ++ updates.map StorageRootUpdate.addr)).keys

def targetAccount (db : RevmStableDb) (t : TrieState H) (delta : TrieDelta) (x : StoragePass H)
    (addr : Address) : Option (TrieAccount H) :=
  let storageRoot := (x.rootAfter codec addr).getD (storedRoot codec t addr)
  match delta.get addr with
  | some d => accountAfter c codec d storageRoot
  | none => accountFromState c codec db addr storageRoot

def rootHashKey (root : H) : Option H := if root = codec.zeroHash then none else some root

def buildAnchorDelta (t : TrieState H) (updates : List (StorageRootUpdate H)) (newStateRoot : H) :
    AnchorDelta H where
  stateRootOld := rootHashKey codec t.stateRoot
  stateRootNew := rootHashKey codec newStateRoot
  storageRootOld := updates.filterMap (fun u => t.storageRoots.get u.addr)
  storageRootNew := updates.filterMap StorageRootUpdate.storageRoot

def forceStorageRoots (x : StoragePass H) (b : JournalBuilder H) : JournalBuilder H :=
  x.updates.foldl (fun b u =>
    forceRootRecord codec b (u.storageRoot.getD (emptyRoot codec)) ((x.ptrAfter.get u.addr).getD none)) b

def storagePass (db : RevmStableDb) (t : TrieState H) (delta : TrieDelta)
    (touchedAddrs : List Address) : Option (StoragePass H) :=
  (targetStorageAddrs delta touchedAddrs).foldlM (storageStep c codec db t delta touchedAddrs)
    ⟨.new t.store.nodeDb, .empty, []⟩

def accountOps (db : RevmStableDb) (t : TrieState H) (delta : TrieDelta)
    (touchedAddrs : List Address) (x : StoragePass H) : List KvOp :=
  sortByKey ((targetAccountAddrs delta touchedAddrs x.updates).map
    (fun addr => accountOp c codec addr (targetAccount c codec db t delta x addr)))

def buildStateUpdateJournal (db : RevmStableDb) (t : TrieState H) (delta : TrieDelta)
    (touchedAddrs : List Address) : Option (TrieUpdateJournal H) := do
  let x ← storagePass c codec db t delta touchedAddrs
  let r ← applyOps codec.toNodeCodec (rootToPtr codec.toNodeCodec t.stateRoot, x.builder)
    (accountOps c codec db t delta touchedAddrs x)
  let newStateRoot := ptrToRoot codec.toNodeCodec r.1
  let b := forceStorageRoots codec x (forceRootRecord codec r.2 newStateRoot r.1)
  some
    { stateRoot := newStateRoot
      storageUpdates := x.updates
      nodeDeltaCounts := b.nodeDeltaCounts
      newNodeRecords := b.newNodeRecords
      updatedAccountLeafHashes := .empty
      anchorDelta := buildAnchorDelta codec t x.updates newStateRoot }

def rlpNodeHash (ptr : RlpNode H) : H := ptrHash codec.toNodeCodec ptr

-- one round of the walk down for each unit of fuel
def resolveLeafHashForKey (b : JournalBuilder H) (key : List Nibble) :
    Nat → Nat → RlpNode H → Option H
  | 0, _, _ => none
  | fuel + 1, depth, current =>
      match b.resolvePtr codec.toNodeCodec current with
      | some (.leaf leafKey _) =>
          if leafKey = key.drop depth then some (rlpNodeHash codec current) else none
      | some (.extension extKey child) =>
          let common := commonPrefixLength extKey (key.drop depth)
          if common ≠ extKey.length then none
          else resolveLeafHashForKey b key fuel (depth + common) child
      | some (.branch branch) =>
          match key.drop depth with
          | [] => none
          | nibble :: _ =>
              match branchChild branch nibble with
              | none => none
              | some child => resolveLeafHashForKey b key fuel (depth + 1) child
      | some .emptyRoot => none
      | none => none

def fullStorageStep (db : RevmStableDb) (x : StoragePass H) (addr : Address) :
    Option (StoragePass H) :=
  (applyOps codec.toNodeCodec (none, x.builder) (collectStorageOpsFromState c codec db addr)).map
    (fun r => { x with builder := r.2, ptrAfter := x.ptrAfter.insert addr r.1 })

def storageAddrs (db : RevmStableDb) : List Address :=
  (addrSet (db.storage.keys.map StorageKey.address)).keys

def fullAccountAddrs (db : RevmStableDb) (t : TrieState H) (x : StoragePass H) : List Address :=
  (addrSet (db.accounts.keys ++ t.storageRoots.keys ++ x.ptrAfter.keys)).keys

def leafHashes (b : JournalBuilder H) (stateRootPtr : Option (RlpNode H)) (addrs : List Address) :
    OrdMap Address H :=
  match stateRootPtr with
  | none => .empty
  | some ptr =>
      addrs.foldl (fun m addr =>
        let key := addrKey c addr
        match resolveLeafHashForKey codec b key (key.length + 1) 0 ptr with
        | some hash => m.insert addr hash
        | none => m) .empty

def buildStateUpdateJournalFull (db : RevmStableDb) (t : TrieState H) :
    Option (TrieUpdateJournal H) := do
  let x ← (storageAddrs db).foldlM (fullStorageStep c codec db) ⟨.new t.store.nodeDb, .empty, []⟩
  let addrs := fullAccountAddrs db t x
  let accountOps := sortByKey (addrs.map (fun addr => accountOp c codec addr
    (accountFromState c codec db addr ((x.rootAfter codec addr).getD (storedRoot codec t addr)))))
  let r ← applyOps codec.toNodeCodec (none, x.builder) accountOps
  let stateRoot := ptrToRoot codec.toNodeCodec r.1
  let b := x.ptrAfter.entries.foldl
    (fun b e => forceRootRecord codec b (ptrToRoot codec.toNodeCodec e.2) e.2)
    (forceRootRecord codec r.2 stateRoot r.1)
  some
    { stateRoot := stateRoot
      storageUpdates := []
      nodeDeltaCounts := b.nodeDeltaCounts
      newNodeRecords := b.newNodeRecords
      updatedAccountLeafHashes := leafHashes c codec b r.1 addrs
      anchorDelta := .default }

end

end Kasane.Trie
