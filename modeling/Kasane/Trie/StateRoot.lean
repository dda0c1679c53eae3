import Kasane.Trie.Applied

namespace Kasane.Trie

open BigEndian Word Chain Exec JournalBuilder NodeStore

structure TouchedSummary where
  accountsCount : Nat
  slotsCount : Nat
  deltaDigest : ByteArr 32

inductive MigrationPhase where
  | init
  | buildTrie
  | buildRefcnt
  | verify
  | done
deriving DecidableEq

structure VerifyMetrics where
  verifyCount : Nat
  verifySkippedCount : Nat
  migrationPhase : MigrationPhase

structure RootState (H : Type) [LinearOrder H] extends TrieState H where
  initialized : Bool
  phase : MigrationPhase
  cursor : Nat
  lastError : Nat
  accountLeafHash : OrdMap Address H
  metrics : VerifyMetrics

-- the library that computes a root from the whole listing of a trie
structure RootLibrary (H : Type) where
  storageRootUnhashed : List (Nat × Nat) → H
  stateRootUnhashed : List (Address × TrieAccount H) → H

abbrev PreparedStateRoot (H : Type) [LinearOrder H] := TrieUpdateJournal H

def verifySampleMod : Nat := 1024

def verifyMaxTouchedAccounts : Nat := 8

def verifyMaxTouchedSlots : Nat := 64

def nodeDbRebuildOnVerifyOnly : Bool := false

def initMigrationTicksPerCall : Nat := 8

def initMigrationMaxSteps : Nat := 512

def shouldVerify (blockNumber : Nat) (touched : TouchedSummary) : Bool :=
  decide (blockNumber % verifySampleMod = 0) ||
    decide (touched.accountsCount ≤ verifyMaxTouchedAccounts ∧
      touched.slotsCount ≤ verifyMaxTouchedSlots)

-- the addresses and the slots that the diffs of a block change
structure Touched where
  addrs : OrdMap Address Unit
  slots : Nat
  digests : List (ByteArr 32)

def changedStorageSlots (account : Account) : List (Nat × EvmStorageSlot) :=
  account.storage.entries.filter (fun e => decide (e.2.originalValue ≠ e.2.presentValue))

def touchedPayload (e : Address × Account) : Bytes :=
  e.1.toList ++ (changedStorageSlots e.2).flatMap
    (fun s => encode 32 s.1 ++ encode 32 s.2.presentValue)

def touchAccount (c : Crypto) (x : Touched) (e : Address × Account) : Touched where
  addrs := x.addrs.insert e.1 ()
  slots := saturatingAdd u32Max x.slots (changedStorageSlots e.2).length
  digests := x.digests ++ [c.keccak256 (touchedPayload e)]

def collectTouchedAddresses (c : Crypto) (x : Touched) (diff : StateDiff) : Touched :=
  diff.entries.foldl (touchAccount c) x

def touchedOf (c : Crypto) (stateDiffs : List StateDiff) : Touched :=
  stateDiffs.foldl (collectTouchedAddresses c) ⟨.empty, 0, []⟩

def Touched.summary (c : Crypto) (x : Touched) : TouchedSummary where
  accountsCount := x.addrs.len
  slotsCount := x.slots
  deltaDigest := c.keccak256 (x.digests.flatMap List.Vector.toList)

variable {H : Type} [LinearOrder H] (c : Crypto) (codec : StateCodec H) (lib : RootLibrary H)

def storageSlots (db : RevmStableDb) (addr : Address) : List (Nat × Nat) :=
  (db.storage.entries.filter (fun e => decide (e.1.address = addr))).map
    (fun e => (e.1.slot, e.2))

def computeStorageRootForAddress (db : RevmStableDb) (addr : Address) : H :=
  match storageSlots db addr with
  | [] => emptyRoot codec
  | slots => lib.storageRootUnhashed slots

def cacheAccount (roots : OrdMap Address H) (m : OrdMap Address (TrieAccount H))
    (e : Address × AccountVal) : OrdMap Address (TrieAccount H) :=
  let account : TrieAccount H := ⟨e.2.nonce, e.2.balance, (roots.get e.1).getD (emptyRoot codec),
    normalizeCodeHash c e.2.codeHash⟩
  if isEmptyTrieAccount c codec account then m else m.insert e.1 account

def cacheStorageRoot (m : OrdMap Address (TrieAccount H)) (e : Address × H) :
    OrdMap Address (TrieAccount H) :=
  match m.get e.1 with
  | some _ => m
  | none =>
      let account : TrieAccount H := ⟨0, 0, e.2, keccakEmpty c⟩
      if isEmptyTrieAccount c codec account then m else m.insert e.1 account

def cachedAccounts (db : RevmStableDb) (roots : OrdMap Address H) :
    OrdMap Address (TrieAccount H) :=
  roots.entries.foldl (cacheStorageRoot c codec)
    (db.accounts.entries.foldl (cacheAccount c codec roots) .empty)

def computeStateRootFromCache (db : RevmStableDb) (t : TrieState H) : H :=
  lib.stateRootUnhashed (cachedAccounts c codec db t.storageRoots).entries

def setStorageRoot (db : RevmStableDb) (roots : OrdMap Address H) (addr : Address) :
    OrdMap Address H :=
  let root := computeStorageRootForAddress codec lib db addr
  if root = emptyRoot codec then roots.remove addr else roots.insert addr root

-- the addresses of a page, each run of one address taken once
def pageAddrs : Option Address → List (StorageKey × Nat) → List Address
  | _, [] => []
  | last, e :: rest =>
      if last = some e.1.address then pageAddrs last rest
      else e.1.address :: pageAddrs (some e.1.address) rest

def journalUpdate (j : TrieUpdateJournal H) : JournalUpdate H :=
  ⟨j.nodeDeltaCounts, j.newNodeRecords, j.anchorDelta⟩

-- the node store is emptied and filled again from accounts and storage
def rebuildNodeDb (db : RevmStableDb) (t : RootState H) : Option (RootState H) :=
  let cleared : RootState H := { t with
    store := { t.store with nodeDb := .empty, gcQueue := .empty, gcState := .new } }
  (buildStateUpdateJournalFull c codec db cleared.toTrieState).map (fun built =>
    { cleared with
      store := cleared.store.applyJournal (emptyRoot codec) (journalUpdate built)
      accountLeafHash := built.updatedAccountLeafHashes })

def runMigrationTick (db : RevmStableDb) (maxSteps : Nat) (t : RootState H) :
    Option (Bool × RootState H) :=
  let maxSteps := max maxSteps 1
  match t.phase with
  | .done =>
      if t.initialized then some (true, t)
      else some (false, { t with phase := .init, cursor := 0, lastError := 0 })
  | .init => some (false, { t with phase := .buildTrie, cursor := 0 })
  | .buildTrie =>
      let roots := if t.cursor = 0 then .empty else t.storageRoots
      let page := (db.storage.entries.drop t.cursor).take maxSteps
      let t := { t with
        storageRoots := (pageAddrs none page).foldl (setStorageRoot codec lib db) roots }
      if page.length < maxSteps then some (false, { t with phase := .buildRefcnt, cursor := 0 })
      else some (false, { t with cursor := t.cursor + page.length })
  | .buildRefcnt =>
      (rebuildNodeDb c codec db t).map (fun t => (false, { t with phase := .verify, cursor := 0 }))
  | .verify =>
      some (true, { t with
        initialized := true
        stateRoot := computeStateRootFromCache c codec lib db t.toTrieState
        phase := .done
        cursor := 0
        lastError := 0 })

def migrationTicks (db : RevmStableDb) : Nat → RootState H → Option (RootState H)
  | 0, t => some t
  | ticks + 1, t =>
      (runMigrationTick c codec lib db initMigrationMaxSteps t).bind (fun r =>
        if r.1 then some r.2 else migrationTicks db ticks r.2)

def ensureNodeDbBootstrapped (db : RevmStableDb) (t : RootState H) : Option (RootState H) :=
  if t.stateRoot = emptyRoot codec then some t
  else
    match t.store.nodeDb.get t.stateRoot with
    | some _ => some t
    | none => rebuildNodeDb c codec db t

def ensureInitialized (db : RevmStableDb) (t : RootState H) : Option (RootState H) :=
  if t.initialized then ensureNodeDbBootstrapped c codec db t
  else
    (migrationTicks c codec lib db initMigrationTicksPerCall t).bind (fun t =>
      if t.initialized then ensureNodeDbBootstrapped c codec db t else some t)

def unchangedRoot (t : TrieState H) : PreparedStateRoot H :=
  ⟨t.stateRoot, [], .empty, .empty, .empty, .default⟩

def RootState.noteVerified (t : RootState H) (verified : Bool) : RootState H :=
  { t with metrics := {
      verifyCount := if verified then saturatingAdd u64Max t.metrics.verifyCount 1
        else t.metrics.verifyCount
      verifySkippedCount := if verified then t.metrics.verifySkippedCount
        else saturatingAdd u64Max t.metrics.verifySkippedCount 1
      migrationPhase := t.phase } }

def prepareStateRootCommit (db : RevmStableDb) (t : RootState H) (stateDiffs : List StateDiff)
    (touchedAddrs : List Address) (touched : TouchedSummary) (blockNumber : Nat) :
    Option (Except String (PreparedStateRoot H) × RootState H) :=
  (ensureInitialized c codec lib db t).bind (fun t =>
    if t.initialized = false ∨ t.phase ≠ .done then
      some (.error "state_root_migration_pending", t)
    else
      let delta := buildTrieDelta c stateDiffs
      if delta.entries = [] ∧ touchedAddrs = [] ∧ touched.accountsCount = 0 ∧
          touched.slotsCount = 0 then
        some (.ok (unchangedRoot t.toTrieState), t.noteVerified false)
      else
        let effectiveChanges := delta.entries ≠ [] ∨ touchedAddrs ≠ []
        let built := if nodeDbRebuildOnVerifyOnly = false ∨ shouldVerify blockNumber touched then
            buildStateUpdateJournal c codec db t.toTrieState delta touchedAddrs
          else some (unchangedRoot t.toTrieState)
        built.map (fun built =>
          (.ok { built with stateRoot := if effectiveChanges then built.stateRoot else t.stateRoot },
            t.noteVerified (shouldVerify blockNumber touched))))

def applyStateRootCommit (t : RootState H) (prepared : PreparedStateRoot H) : RootState H :=
  if prepared.storageUpdates = [] ∧ prepared.nodeDeltaCounts.entries = [] ∧
      prepared.newNodeRecords.entries = [] ∧ prepared.updatedAccountLeafHashes.entries = [] ∧
      prepared.stateRoot = t.stateRoot then t
  else
    let store := t.store.applyJournal (emptyRoot codec) (journalUpdate prepared)
    { t with
      storageRoots := rootsAfter t.storageRoots prepared.storageUpdates
      initialized := true
      stateRoot := prepared.stateRoot
      store := store
      accountLeafHash :=
        if prepared.updatedAccountLeafHashes.entries = [] then t.accountLeafHash
        else prepared.updatedAccountLeafHashes.entries.foldl (fun m e =>
          match store.nodeDb.get e.2 with
          | some record => if 0 < record.refcnt then m.insert e.1 e.2 else m
          | none => m) .empty }

end Kasane.Trie
