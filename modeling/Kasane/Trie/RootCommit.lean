import Kasane.Trie.Migration

namespace Kasane.Trie

open BigEndian Patricia JournalBuilder Chain Exec Listing NodeStore

variable {H : Type} [LinearOrder H] {c : Crypto} {codec : StateCodec H} {lib : RootLibrary H}
  {A : Set Address} {S : Set Nat} {db : RevmStableDb} {t t' : RootState H}
  {stateDiffs : List StateDiff} {touchedAddrs : List Address}

structure Rooted (c : Crypto) (codec : StateCodec H) (db : RevmStableDb) (t : RootState H) : Prop where
  phase : t.phase = .done
  initialized : t.initialized = true
  nonempty : NoEmptyRoot codec t.storageRoots
  mirrors : Mirrors c codec (.new t.store.nodeDb) db (storedRoot codec t.toTrieState) t.stateRoot

-- a migration on its way, or the tries of the state
inductive Ready (c : Crypto) (codec : StateCodec H) (lib : RootLibrary H) (db : RevmStableDb)
    (t : RootState H) : Prop
  | pending (fresh : t.initialized = false) (migrating : Migrating c codec lib db t)
      (tidy : TidyWorld c codec db)
  | rooted (h : Rooted c codec db t)

theorem ready_fresh (h : TidyWorld c codec db) : Ready c codec lib db (freshRoot codec) :=
  .pending rfl (fun htrue => absurd htrue Bool.false_ne_true) h

theorem Migrated.rooted (h : Migrated c codec db t) : Rooted c codec db t :=
  ⟨h.phase, h.initialized, h.nonempty, h.mirrors⟩

theorem initialized_rebuildNodeDb (h : rebuildNodeDb c codec db t = some t') :
    t'.initialized = t.initialized := by
  obtain ⟨j, -, rfl⟩ := Option.map_eq_some_iff.mp h
  rfl

-- only the last tick makes the state initialized, and it says so
theorem initialized_runMigrationTick {maxSteps : Nat} {r : Bool × RootState H}
    (h : runMigrationTick c codec lib db maxSteps t = some r) (hfresh : t.initialized = false) :
    r.2.initialized = r.1 := by
  rw [runMigrationTick] at h
  cases hphase : t.phase with
  | done =>
      rw [hphase] at h
      dsimp only at h
      rw [if_neg (by rw [hfresh]; exact Bool.false_ne_true)] at h
      obtain rfl := Option.some.inj h
      exact hfresh
  | init =>
      rw [hphase] at h
      obtain rfl := Option.some.inj h
      exact hfresh
  | buildTrie =>
      rw [hphase] at h
      dsimp only at h
      split_ifs at h
      all_goals
        obtain rfl := Option.some.inj h
        exact hfresh
  | buildRefcnt =>
      rw [hphase] at h
      obtain ⟨t₁, ht₁, rfl⟩ := Option.map_eq_some_iff.mp h
      exact (initialized_rebuildNodeDb ht₁).trans hfresh
  | verify =>
      rw [hphase] at h
      obtain rfl := Option.some.inj h
      rfl

theorem ready_migrationTicks (hlawful : codec.Lawful) (hapart : Apart c A S)
    (hwithin : Within A S db) (hlib : lib.Right c codec) (htidy : TidyWorld c codec db) (ticks : Nat)
    (hfresh : t.initialized = false) (h : Migrating c codec lib db t) :
    ∃ t', migrationTicks c codec lib db ticks t = some t' ∧ Ready c codec lib db t' := by
  induction ticks generalizing t with
  | zero => exact ⟨t, rfl, .pending hfresh h htidy⟩
  | succ ticks ih =>
      obtain ⟨r, hr, hticks⟩ := ticks_runMigrationTick hlawful hapart hwithin hlib htidy h
        initMigrationMaxSteps
      have hinitialized := initialized_runMigrationTick hr hfresh
      rw [migrationTicks, hr, Option.bind_some]
      cases hdone : r.1 with
      | true =>
          rw [if_pos rfl]
          have hend := migrated_of_noneLeft hticks.migrating (hticks.finished.mp hdone)
          exact ⟨r.2, rfl, .rooted hend.rooted⟩
      | false =>
          rw [if_neg Bool.false_ne_true]
          exact ih (hinitialized.trans hdone) hticks.migrating

theorem bootstrapped_of_rooted (h : Rooted c codec db t) :
    ensureNodeDbBootstrapped c codec db t = some t := by
  rw [ensureNodeDbBootstrapped]
  split_ifs with hempty
  · rfl
  · obtain ⟨e, -, hstored⟩ := h.mirrors.state
    have hptr : rootToPtr codec.toNodeCodec t.stateRoot = some (.word t.stateRoot) := if_neg hempty
    have hshown := hstored.shown
    rw [hptr] at hshown
    obtain ⟨node, hroots, -⟩ := hshown
    obtain ⟨raw, hrecord, -⟩ := Option.bind_eq_some_iff.mp hroots.resolved
    rw [record_new] at hrecord
    obtain ⟨record, hget, -⟩ := Option.map_eq_some_iff.mp hrecord
    rw [hget]

theorem ready_ensureInitialized (hlawful : codec.Lawful) (hapart : Apart c A S)
    (hwithin : Within A S db) (hlib : lib.Right c codec) (h : Ready c codec lib db t) :
    ∃ t', ensureInitialized c codec lib db t = some t' ∧ Ready c codec lib db t' := by
  rw [ensureInitialized]
  cases h with
  | rooted h =>
      rw [if_pos h.initialized, bootstrapped_of_rooted h]
      exact ⟨t, rfl, .rooted h⟩
  | pending fresh migrating tidy =>
      rw [if_neg (by rw [fresh]; exact Bool.false_ne_true)]
      obtain ⟨t', ht', hready⟩ := ready_migrationTicks hlawful hapart hwithin hlib tidy
        initMigrationTicksPerCall fresh migrating
      rw [ht', Option.bind_some]
      cases hready with
      | rooted h =>
          rw [if_pos h.initialized, bootstrapped_of_rooted h]
          exact ⟨t', rfl, .rooted h⟩
      | pending fresh migrating tidy =>
          rw [if_neg (by rw [fresh]; exact Bool.false_ne_true)]
          exact ⟨t', rfl, .pending fresh migrating tidy⟩

-- the removals of a block are tidy, whatever roots its state has
structure TidyBlock (c : Crypto) (codec : StateCodec H) (db : RevmStableDb)
    (stateDiffs : List StateDiff) (touchedAddrs : List Address) : Prop where
  storage : ∀ addr d e, (buildTrieDelta c stateDiffs).get addr = some d → d.deleted = false →
    Lists (slotKey c) (storageValues codec db addr) e →
      TidyOps e (sortByKey (d.storage.entries.map (storageOp c codec)))
  accounts : ∀ roots roots' e, RightRoots c codec db roots →
    RightRoots c codec (commitAll c db stateDiffs) roots' →
      Lists (addrKey c) (accountValues c codec db roots) e →
        TidyOps e (accountChanges c codec (commitAll c db stateDiffs) (buildTrieDelta c stateDiffs)
          touchedAddrs roots')

theorem OnlyWrites.tidyBlock (h : OnlyWrites c codec db stateDiffs touchedAddrs) :
    TidyBlock c codec db stateDiffs touchedAddrs where
  storage := (h.tidy (emptyTrie codec)).storage
  accounts := by
    intro roots roots' e _ _ _
    refine tidyOps_of_writes (fun op hop => ?_) e
    obtain ⟨addr, haddr, rfl⟩ := List.mem_map.mp (mem_sortByKey.mp hop)
    exact fun hmap => h.accounts addr haddr _ (Option.map_eq_none_iff.mp hmap)

-- what a block must be for its tries to follow it
structure Settles (c : Crypto) (codec : StateCodec H) (A : Set Address) (S : Set Nat)
    (db : RevmStableDb) (stateDiffs : List StateDiff) (touchedAddrs : List Address) : Prop where
  diffs : DiffsWithin A S (diffEntries stateDiffs)
  touched : ∀ addr ∈ touchedAddrs, addr ∈ A
  revival : NoRevival c (diffEntries stateDiffs)
  tidy : TidyBlock c codec db stateDiffs touchedAddrs

theorem rooted_noteVerified (h : Rooted c codec db t) (verified : Bool) :
    Rooted c codec db (t.noteVerified verified) :=
  ⟨h.phase, h.initialized, h.nonempty, h.mirrors⟩

theorem entries_eq_nil {K V : Type} [LinearOrder K] {m : OrdMap K V} :
    m.entries = [] ↔ m = .empty :=
  ⟨fun h => OrdMap.ext_get (fun k => by rw [OrdMap.get, h]; rfl), fun h => by rw [h]; rfl⟩

theorem mirrors_unchanged {root : H} {roots : Address → H}
    (h : Mirrors c codec (.new t.store.nodeDb) db roots root) :
    Mirrors c codec (t.store.before (journalUpdate (unchangedRoot t.toTrieState))) db roots root := h

theorem get_mergeAccounts (es : List (Address × Account)) (delta : TrieDelta) (addr : Address) :
    (delta.get addr).isSome ∨ addr ∈ es.map Prod.fst →
      ((es.foldl (mergeAccount c) delta).get addr).isSome := by
  induction es generalizing delta with
  | nil => exact fun h => h.resolve_right List.not_mem_nil
  | cons e es ih =>
      intro h
      refine ih _ ?_
      rw [mergeAccount, OrdMap.get_insert]
      by_cases haddr : addr = e.1
      · exact .inl (by rw [if_pos haddr]; rfl)
      · rw [if_neg haddr]
        rw [List.map_cons, List.mem_cons] at h
        exact h.imp id (fun h => h.resolve_left haddr)

theorem commitAll_of_noDelta (h : (buildTrieDelta c stateDiffs).entries = []) (db : RevmStableDb) :
    commitAll c db stateDiffs = db := by
  have hdelta : buildTrieDelta c stateDiffs =
      (diffEntries stateDiffs).foldl (mergeAccount c) .empty := (List.foldl_flatMap ..).symm
  have hcommit : commitAll c db stateDiffs =
      (diffEntries stateDiffs).foldl (RevmStableDb.commitAccount c) db :=
    (List.foldl_flatMap ..).symm
  rw [hdelta, entries_eq_nil] at h
  cases hes : diffEntries stateDiffs with
  | nil => rw [hcommit, hes, List.foldl_nil]
  | cons e es =>
      have hmem : e.1 ∈ (diffEntries stateDiffs).map Prod.fst := by
        rw [hes]
        exact List.mem_cons_self
      have hsome := get_mergeAccounts (c := c) _ .empty e.1 (.inr hmem)
      rw [h] at hsome
      cases hsome

-- the roots and the records that a prepared commit carries are those of the block's own state
structure Prepared (c : Crypto) (codec : StateCodec H) (db : RevmStableDb)
    (stateDiffs : List StateDiff) (t : RootState H) (prepared : PreparedStateRoot H) : Prop where
  rooted : Rooted c codec db t
  updates : ∀ u ∈ prepared.storageUpdates, u.storageRoot ≠ some (emptyRoot codec)
  mirrors : Mirrors c codec (t.store.before (journalUpdate prepared)) (commitAll c db stateDiffs)
    (storedRootAfter codec t.toTrieState prepared) prepared.stateRoot

theorem prepare_of_rooted (lib : RootLibrary H) (hlawful : codec.Lawful) (hapart : Apart c A S)
    (hwithin : Within A S db) (h : Rooted c codec db t) (touched : TouchedSummary)
    (blockNumber : Nat) (hblock : Settles c codec A S db stateDiffs touchedAddrs) :
    ∃ prepared t', prepareStateRootCommit c codec lib db t stateDiffs touchedAddrs touched
        blockNumber = some (.ok prepared, t') ∧ Prepared c codec db stateDiffs t' prepared := by
  have hensure : ensureInitialized c codec lib db t = some t := by
    rw [ensureInitialized, if_pos h.initialized, bootstrapped_of_rooted h]
  have hready : ¬ (t.initialized = false ∨ t.phase ≠ .done) := by
    rw [h.initialized, h.phase]
    simp
  have hright : RightRoots c codec db (storedRoot codec t.toTrieState) :=
    (h.mirrors.isStateRoot hlawful).storage
  rw [prepareStateRootCommit, hensure, Option.bind_some, if_neg hready]
  by_cases hnothing : (buildTrieDelta c stateDiffs).entries = [] ∧ touchedAddrs = [] ∧
      touched.accountsCount = 0 ∧ touched.slotsCount = 0
  · refine ⟨_, _, if_pos hnothing, rooted_noteVerified h false,
      fun _ hu => absurd hu List.not_mem_nil, ?_⟩
    rw [commitAll_of_noDelta hnothing.1]
    exact h.mirrors
  · obtain ⟨j, hj, hmirrors⟩ := journal_mirrors hlawful hapart hwithin h.mirrors hblock.diffs
      hblock.touched hblock.revival
      ⟨hblock.tidy.storage, fun roots' e hroots' hlists =>
        hblock.tidy.accounts _ roots' e hright hroots' hlists⟩
    have hroot : (if (buildTrieDelta c stateDiffs).entries ≠ [] ∨ touchedAddrs ≠ [] then j.stateRoot
        else t.stateRoot) = j.stateRoot := by
      by_cases hchanges : (buildTrieDelta c stateDiffs).entries ≠ [] ∨ touchedAddrs ≠ []
      · exact if_pos hchanges
      · rw [if_neg hchanges]
        rw [not_or, not_not, not_not] at hchanges
        have hsame := hmirrors.isStateRoot hlawful
        rw [commitAll_of_noDelta hchanges.1] at hsame
        exact (isStateRoot_unique hlawful (h.mirrors.isStateRoot hlawful) hsame).2
    have hbuild : nodeDbRebuildOnVerifyOnly = false ∨ shouldVerify blockNumber touched = true := .inl rfl
    refine ⟨{ j with stateRoot := j.stateRoot }, _, ?_,
      rooted_noteVerified h (shouldVerify blockNumber touched), updates_journal hj, hmirrors⟩
    rw [if_neg hnothing]
    dsimp only
    rw [if_pos hbuild, hj, Option.map_some, hroot]

theorem prepare_pending (h : ensureInitialized c codec lib db t = some t')
    (hfresh : t'.initialized = false) (touched : TouchedSummary) (blockNumber : Nat) :
    prepareStateRootCommit c codec lib db t stateDiffs touchedAddrs touched blockNumber =
      some (.error "state_root_migration_pending", t') := by
  rw [prepareStateRootCommit, h, Option.bind_some, if_pos (.inl hfresh)]

-- a preparation is refused while the migration is on its way, and is right once it is over
theorem prepare_ready (hlawful : codec.Lawful) (hapart : Apart c A S) (hwithin : Within A S db)
    (hlib : lib.Right c codec) (h : Ready c codec lib db t) (touched : TouchedSummary)
    (blockNumber : Nat) (hblock : Settles c codec A S db stateDiffs touchedAddrs) :
    ∃ r t', prepareStateRootCommit c codec lib db t stateDiffs touchedAddrs touched blockNumber =
      some (r, t') ∧ Ready c codec lib db t' ∧
        ((r = .error "state_root_migration_pending" ∧ t'.initialized = false) ∨
          ∃ prepared, r = .ok prepared ∧ Prepared c codec db stateDiffs t' prepared) := by
  obtain ⟨t₁, hensure, hready⟩ := ready_ensureInitialized hlawful hapart hwithin hlib h
  cases hready with
  | pending fresh migrating tidy =>
      exact ⟨_, t₁, prepare_pending hensure fresh touched blockNumber, .pending fresh migrating tidy,
        .inl ⟨rfl, fresh⟩⟩
  | rooted hrooted =>
      obtain ⟨prepared, t', hprepare, hprepared⟩ := prepare_of_rooted lib hlawful hapart
        hwithin hrooted touched blockNumber hblock
      refine ⟨_, t', ?_, .rooted hprepared.rooted, .inr ⟨prepared, rfl, hprepared⟩⟩
      have hsame : ensureInitialized c codec lib db t₁ = some t₁ := by
        rw [ensureInitialized, if_pos hrooted.initialized, bootstrapped_of_rooted hrooted]
      rw [prepareStateRootCommit, hsame] at hprepare
      rw [prepareStateRootCommit, hensure]
      exact hprepare

-- the collector spares what the tries of the block's state reach
def Spares (codec : StateCodec H) (t : RootState H) (prepared : PreparedStateRoot H) : Prop :=
  KeepsLive codec.toNodeCodec (t.store.before (journalUpdate prepared))
    (.new (t.store.applyJournal (emptyRoot codec) (journalUpdate prepared)).nodeDb)
    (storedRootAfter codec t.toTrieState prepared) prepared.stateRoot

theorem spares_of_fresh {prepared : PreparedStateRoot H}
    (h : Prepared c codec db stateDiffs t prepared) (hfresh : t.store.Fresh) :
    Spares codec t prepared := keepsLive_fresh hfresh h.mirrors (emptyRoot codec)

theorem store_of_prepare (h : Rooted c codec db t) {touched : TouchedSummary} {blockNumber : Nat}
    {r : Except String (PreparedStateRoot H)}
    (hrun : prepareStateRootCommit c codec lib db t stateDiffs touchedAddrs touched blockNumber =
      some (r, t')) : t'.store = t.store := by
  have hensure : ensureInitialized c codec lib db t = some t := by
    rw [ensureInitialized, if_pos h.initialized, bootstrapped_of_rooted h]
  have hready : ¬ (t.initialized = false ∨ t.phase ≠ .done) := by
    rw [h.initialized, h.phase]
    simp
  rw [prepareStateRootCommit, hensure, Option.bind_some, if_neg hready] at hrun
  by_cases hnothing : (buildTrieDelta c stateDiffs).entries = [] ∧ touchedAddrs = [] ∧
      touched.accountsCount = 0 ∧ touched.slotsCount = 0
  · rw [if_pos hnothing] at hrun
    obtain ⟨-, rfl⟩ := Prod.mk.inj (Option.some.inj hrun)
    rfl
  · rw [if_neg hnothing] at hrun
    obtain ⟨j, -, hj⟩ := Option.map_eq_some_iff.mp hrun
    obtain ⟨-, rfl⟩ := Prod.mk.inj hj
    rfl

theorem rooted_apply {prepared : PreparedStateRoot H} (h : Prepared c codec db stateDiffs t prepared)
    (hspares : Spares codec t prepared) :
    Rooted c codec (commitAll c db stateDiffs) (applyStateRootCommit codec t prepared) := by
  have hmirrors := h.mirrors
  rw [applyStateRootCommit]
  by_cases hnothing : prepared.storageUpdates = [] ∧ prepared.nodeDeltaCounts.entries = [] ∧
      prepared.newNodeRecords.entries = [] ∧ prepared.updatedAccountLeafHashes.entries = [] ∧
      prepared.stateRoot = t.stateRoot
  · rw [if_pos hnothing]
    obtain ⟨hupdates, -, hrecords, -, hroot⟩ := hnothing
    refine ⟨h.rooted.phase, h.rooted.initialized, h.rooted.nonempty, ?_⟩
    have hroots : storedRootAfter codec t.toTrieState prepared = storedRoot codec t.toTrieState := by
      funext addr
      rw [storedRootAfter, hupdates]
      rfl
    rw [hroots, hroot] at hmirrors
    have hrecord (hash : H) : (JournalBuilder.new t.store.nodeDb).record hash =
        (t.store.before (journalUpdate prepared)).record hash := by
      rw [record_before, journalUpdate, entries_eq_nil.mp hrecords]
      rfl
    obtain ⟨e, hlists, hstored⟩ := hmirrors.state
    obtain ⟨old, -, hold⟩ := h.rooted.mirrors.state
    have hgenuine := hold.genuine
    refine ⟨fun addr => ?_, e, hlists, hstored.spared hgenuine (fun p _ hash _ => hrecord hash)⟩
    obtain ⟨e, hlists, hstored⟩ := hmirrors.storage addr
    exact ⟨e, hlists, hstored.spared hgenuine (fun p _ hash _ => hrecord hash)⟩
  · rw [if_neg hnothing]
    exact ⟨h.rooted.phase, rfl, noEmptyRoot_rootsAfter h.rooted.nonempty h.updates,
      mirrors_applied hmirrors (emptyRoot codec) hspares⟩

end Kasane.Trie
