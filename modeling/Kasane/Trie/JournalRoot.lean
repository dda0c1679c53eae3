import Kasane.Chain.PendingIndexes
import Kasane.Trie.Histories
import Kasane.Trie.StateJournal

namespace Kasane.Trie

open BigEndian Patricia JournalBuilder Chain Exec Listing

variable {H : Type} [LinearOrder H] {c : Crypto} {codec : StateCodec H} {A : Set Address}
  {S : Set Nat} {db : RevmStableDb} {t : TrieState H} {delta : TrieDelta} {stateDiffs : List StateDiff}
  {touchedAddrs : List Address}

structure DiffsWithin (A : Set Address) (S : Set Nat) (es : List (Address × Account)) : Prop where
  addrs : ∀ e ∈ es, e.1 ∈ A
  slots : ∀ e ∈ es, ∀ slot v, e.2.storage.get slot = some v → slot ∈ S

-- the delta names only the addresses and the slots of the diffs
def DeltaWithin (A : Set Address) (S : Set Nat) (delta : TrieDelta) : Prop :=
  ∀ addr d, delta.get addr = some d → addr ∈ A ∧ ∀ slot v, d.storage.get slot = some v → slot ∈ S

theorem mem_of_changedSlot {storage : OrdMap Nat EvmStorageSlot} {slot : Nat} {v : Option Nat}
    (h : changedSlot storage slot = some v) : ∃ e, storage.get slot = some e := by
  obtain ⟨e, he, -⟩ := Option.bind_eq_some_iff.mp h
  exact ⟨e, he⟩

theorem deltaWithin_merge (h : DeltaWithin A S delta) {e : Address × Account} (haddr : e.1 ∈ A)
    (hslots : ∀ slot v, e.2.storage.get slot = some v → slot ∈ S) :
    DeltaWithin A S (mergeAccount c delta e) := by
  intro addr d hd
  rw [mergeAccount, OrdMap.get_insert] at hd
  split_ifs at hd with hsame
  · obtain rfl := Option.some.inj hd
    refine ⟨hsame ▸ haddr, fun slot v hv => ?_⟩
    dsimp only at hv
    rw [get_mergeSlots] at hv
    cases hchanged : changedSlot e.2.storage slot with
    | some w =>
        obtain ⟨s, hs⟩ := mem_of_changedSlot hchanged
        exact hslots slot s hs
    | none =>
        rw [hchanged, Option.none_or] at hv
        cases hget : delta.get e.1 with
        | none =>
            rw [hget] at hv
            exact absurd hv (by simp [AccountDelta.default])
        | some old =>
            rw [hget] at hv
            exact (h e.1 old hget).2 slot v hv
  · exact h addr d hd

theorem deltaWithin_foldl (es : List (Address × Account)) (h : DeltaWithin A S delta)
    (hes : DiffsWithin A S es) : DeltaWithin A S (es.foldl (mergeAccount c) delta) := by
  induction es generalizing delta with
  | nil => exact h
  | cons e es ih =>
      refine ih (deltaWithin_merge h (hes.addrs e List.mem_cons_self)
        (hes.slots e List.mem_cons_self)) ⟨fun e' he' => hes.addrs e' (List.mem_cons_of_mem _ he'), ?_⟩
      exact fun e' he' => hes.slots e' (List.mem_cons_of_mem _ he')

theorem deltaWithin_build (hes : DiffsWithin A S (diffEntries stateDiffs)) :
    DeltaWithin A S (buildTrieDelta c stateDiffs) := by
  have hdelta : buildTrieDelta c stateDiffs =
      (diffEntries stateDiffs).foldl (mergeAccount c) .empty := (List.foldl_flatMap ..).symm
  rw [hdelta]
  exact deltaWithin_foldl _ (fun addr d hd => absurd hd (by simp)) hes

-- the removals that a journal makes are tidy, in the storage tries and in the trie of the accounts
structure TidyJournal (c : Crypto) (codec : StateCodec H) (db : RevmStableDb) (t : TrieState H)
    (stateDiffs : List StateDiff) (touchedAddrs : List Address) : Prop where
  storage : ∀ addr d e, (buildTrieDelta c stateDiffs).get addr = some d → d.deleted = false →
    Lists (slotKey c) (storageValues codec db addr) e →
      TidyOps e (sortByKey (d.storage.entries.map (storageOp c codec)))
  accounts : ∀ roots e, (∀ addr, ∃ e, Lists (slotKey c)
      (storageValues codec (commitAll c db stateDiffs) addr) e ∧
        IsRoot codec.toNodeCodec 64 e (roots addr)) →
    Lists (addrKey c) (accountValues c codec db (storedRoot codec t)) e →
      TidyOps e (accountChanges c codec (commitAll c db stateDiffs) (buildTrieDelta c stateDiffs)
        touchedAddrs roots)

def storedRootAfter (codec : StateCodec H) (t : TrieState H) (j : TrieUpdateJournal H)
    (addr : Address) : H :=
  ((rootsAfter t.storageRoots j.storageUpdates).get addr).getD (emptyRoot codec)

theorem journal_mirrors (hlawful : codec.Lawful) (hapart : Apart c A S) (hwithin : Within A S db)
    (hmirrors : Mirrors c codec (.new t.store.nodeDb) db (storedRoot codec t) t.stateRoot)
    (hdiffs : DiffsWithin A S (diffEntries stateDiffs)) (htouched : ∀ addr ∈ touchedAddrs, addr ∈ A)
    (hrevival : NoRevival c (diffEntries stateDiffs))
    (htidy : TidyJournal c codec db t stateDiffs touchedAddrs) :
    ∃ j, buildStateUpdateJournal c codec db t (buildTrieDelta c stateDiffs) touchedAddrs = some j ∧
      Mirrors c codec ⟨t.store.nodeDb, j.nodeDeltaCounts, j.newNodeRecords⟩
        (commitAll c db stateDiffs) (storedRootAfter codec t j) j.stateRoot := by
  have hdelta : DeltaWithin A S (buildTrieDelta c stateDiffs) := deltaWithin_build hdiffs
  have hs : Settled c codec A S db (commitAll c db stateDiffs) t (buildTrieDelta c stateDiffs) :=
    ⟨hapart, hwithin, hdelta, tells_buildTrieDelta hrevival db, hmirrors, htidy.storage⟩
  exact mirrors_journal hlawful hs (fun addr d hd => (hdelta addr d hd).1) htouched htidy.accounts

-- the journal's state root is the one that the committed accounts and storage determine
theorem journal_state_root (hlawful : codec.Lawful) (hapart : Apart c A S)
    (hwithin : Within A S db)
    (hmirrors : Mirrors c codec (.new t.store.nodeDb) db (storedRoot codec t) t.stateRoot)
    (hdiffs : DiffsWithin A S (diffEntries stateDiffs)) (htouched : ∀ addr ∈ touchedAddrs, addr ∈ A)
    (hrevival : NoRevival c (diffEntries stateDiffs))
    (htidy : TidyJournal c codec db t stateDiffs touchedAddrs) :
    ∃ j, buildStateUpdateJournal c codec db t (buildTrieDelta c stateDiffs) touchedAddrs = some j ∧
      ∀ roots root, IsStateRoot c codec (commitAll c db stateDiffs) roots root ↔
        roots = storedRootAfter codec t j ∧ root = j.stateRoot := by
  obtain ⟨j, hj, hmirrored⟩ :=
    journal_mirrors hlawful hapart hwithin hmirrors hdiffs htouched hrevival htidy
  refine ⟨j, hj, fun roots root => ⟨fun h => ?_, ?_⟩⟩
  · exact isStateRoot_unique hlawful h (hmirrored.isStateRoot hlawful)
  · rintro ⟨rfl, rfl⟩
    exact hmirrored.isStateRoot hlawful

-- writes alone, to slots and to accounts that are not empty, are tidy
structure OnlyWrites (c : Crypto) (codec : StateCodec H) (db : RevmStableDb)
    (stateDiffs : List StateDiff) (touchedAddrs : List Address) : Prop where
  slots : ∀ addr d slot, (buildTrieDelta c stateDiffs).get addr = some d →
    d.storage.get slot ≠ some none
  accounts : ∀ addr ∈ changedAddrs (buildTrieDelta c stateDiffs) touchedAddrs, ∀ root,
    accountFromState c codec (commitAll c db stateDiffs) addr root ≠ none

theorem OnlyWrites.tidy (h : OnlyWrites c codec db stateDiffs touchedAddrs) (t : TrieState H) :
    TidyJournal c codec db t stateDiffs touchedAddrs where
  storage := by
    intro addr d e hd _ _
    refine tidyOps_of_writes (fun op hop => ?_) e
    obtain ⟨x, hx, rfl⟩ := List.mem_map.mp (mem_sortByKey.mp hop)
    have hvalue : x.2 ≠ none := by
      intro hnone
      have hget : d.storage.get x.1 = some x.2 := OrdMap.mem_entries.mp hx
      rw [hnone] at hget
      exact h.slots addr d x.1 hd hget
    exact fun hmap => hvalue (Option.map_eq_none_iff.mp hmap)
  accounts := by
    intro roots e _ _
    refine tidyOps_of_writes (fun op hop => ?_) e
    obtain ⟨addr, haddr, rfl⟩ := List.mem_map.mp (mem_sortByKey.mp hop)
    exact fun hmap => h.accounts addr haddr _ (Option.map_eq_none_iff.mp hmap)

def emptyDb : RevmStableDb := ⟨.empty, .empty, .empty⟩

def emptyTrie (codec : StateCodec H) : TrieState H := ⟨emptyRoot codec, .empty, .empty⟩

theorem mirrors_emptyTrie (c : Crypto) (codec : StateCodec H) :
    Mirrors c codec (.new (emptyTrie codec).store.nodeDb) emptyDb (storedRoot codec (emptyTrie codec))
      (emptyTrie codec).stateRoot where
  storage := fun _ => ⟨fun _ => none, lists_none, stored_empty codec.toNodeCodec 64⟩
  state := by
    have hvalues : accountValues c codec emptyDb (storedRoot codec (emptyTrie codec)) =
        fun _ => none := by
      funext addr
      have hnone : accountFromState c codec emptyDb addr (emptyRoot codec) = none :=
        if_pos (isEmpty_noAccount rfl)
      exact congrArg (Option.map codec.encodeAccount) hnone
    refine ⟨fun _ => none, ?_, stored_empty codec.toNodeCodec 64⟩
    rw [hvalues]
    exact lists_none

def sampleAccount (balance : Nat) : Account where
  info := ⟨balance, 1, keccakEmpty sampleCrypto, some []⟩
  storage := OrdMap.empty.insert 7 ⟨0, 9⟩
  touched := true
  created := true
  selfdestructed := false

def sampleDiffs (balance : Nat) : List StateDiff :=
  [OrdMap.empty.insert feeRecipient (sampleAccount balance)]

variable (balance : Nat)

theorem sampleAccount_kept : ¬ Deleted sampleCrypto (sampleAccount balance) = true := by
  simp [Deleted, sampleAccount, AccountInfo.isEmpty]

theorem sampleDiffs_onlyWrites :
    OnlyWrites sampleCrypto plainState emptyDb (sampleDiffs balance) [feeRecipient] where
  slots := by
    intro addr d slot hd hnone
    have hmem := OrdMap.mem_entries.mpr hd
    have hentries : (buildTrieDelta sampleCrypto (sampleDiffs balance)).entries =
        [(feeRecipient, ⟨Deleted sampleCrypto (sampleAccount balance), 1, balance,
          keccakEmpty sampleCrypto, OrdMap.empty.insert 7 (some 9)⟩)] := rfl
    rw [hentries, List.mem_singleton] at hmem
    obtain ⟨-, rfl⟩ := Prod.mk.inj hmem
    have hslot := OrdMap.mem_entries.mpr hnone
    have hslots : (OrdMap.empty.insert 7 (some 9) : OrdMap Nat (Option Nat)).entries =
        [(7, some 9)] := rfl
    rw [hslots, List.mem_singleton] at hslot
    cases (Prod.mk.inj hslot).2
  accounts := by
    intro addr haddr root
    have haddrs : changedAddrs (buildTrieDelta sampleCrypto (sampleDiffs balance)) [feeRecipient] =
        [feeRecipient] := rfl
    rw [haddrs, List.mem_singleton] at haddr
    subst haddr
    have hcommit : commitAll sampleCrypto emptyDb (sampleDiffs balance) =
        emptyDb.commitAccount sampleCrypto (feeRecipient, sampleAccount balance) := rfl
    have haccount : (commitAll sampleCrypto emptyDb (sampleDiffs balance)).accounts.get feeRecipient =
        some ⟨1, balance, keccakEmpty sampleCrypto⟩ := by
      have hkept : emptyDb.commitAccount sampleCrypto (feeRecipient, sampleAccount balance) = _ :=
        if_neg (sampleAccount_kept balance)
      rw [hcommit, hkept]
      rfl
    rw [accountFromState, haccount]
    simp [isEmptyTrieAccount]

theorem sampleDiffs_within : DiffsWithin {feeRecipient} {7} (diffEntries (sampleDiffs balance)) where
  addrs := by
    intro e he
    obtain rfl := List.mem_singleton.mp he
    rfl
  slots := by
    intro e he slot v hv
    obtain rfl := List.mem_singleton.mp he
    have hslot := OrdMap.mem_entries.mpr hv
    obtain ⟨rfl, -⟩ := Prod.mk.inj (List.mem_singleton.mp hslot)
    rfl

theorem journal_state_root_sample :
    ∃ j, buildStateUpdateJournal sampleCrypto plainState emptyDb (emptyTrie plainState)
        (buildTrieDelta sampleCrypto (sampleDiffs 5)) [feeRecipient] = some j ∧
      ∀ roots root, IsStateRoot sampleCrypto plainState
          (commitAll sampleCrypto emptyDb (sampleDiffs 5)) roots root ↔ roots = storedRootAfter plainState (emptyTrie plainState) j ∧
            root = j.stateRoot :=
  journal_state_root plain_lawful (A := {feeRecipient}) (S := {7})
    ⟨Set.injOn_singleton _ _, Set.injOn_singleton _ _⟩
    ⟨fun _ _ h => absurd h (by simp [emptyDb]), fun _ _ h => absurd h (by simp [emptyDb])⟩
    (mirrors_emptyTrie _ _) (sampleDiffs_within 5) (fun _ h => List.mem_singleton.mp h)
    (List.pairwise_singleton _ _) ((sampleDiffs_onlyWrites 5).tidy _)

end Kasane.Trie
