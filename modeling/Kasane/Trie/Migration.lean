import Kasane.Trie.CachedRoots

namespace Kasane.Trie

open BigEndian Patricia JournalBuilder Chain Exec Listing NodeStore

variable {H : Type} [LinearOrder H] {c : Crypto} {codec : StateCodec H} {lib : RootLibrary H}
  {A : Set Address} {S : Set Nat} {db : RevmStableDb} {t : RootState H}

theorem mem_pageAddrs {addr : Address} {last : Option Address} {page : List (StorageKey × Nat)} :
    addr ∈ pageAddrs last page → addr ∈ page.map (fun e => e.1.address) := by
  induction page generalizing last with
  | nil => exact id
  | cons e page ih =>
      rw [pageAddrs, List.map_cons, List.mem_cons]
      split_ifs
      · exact fun h => .inr (ih h)
      · rw [List.mem_cons]
        exact fun h => h.imp id ih

theorem pageAddrs_mem {addr : Address} {last : Option Address} {page : List (StorageKey × Nat)}
    (h : addr ∈ page.map (fun e => e.1.address)) : last = some addr ∨ addr ∈ pageAddrs last page := by
  induction page generalizing last with
  | nil => exact absurd h List.not_mem_nil
  | cons e page ih =>
      rw [pageAddrs]
      rw [List.map_cons, List.mem_cons] at h
      split_ifs with hlast
      · rcases h with rfl | h
        · exact .inl hlast
        · exact ih h
      · right
        rcases h with rfl | h
        · exact List.mem_cons_self
        · rcases (ih h : some e.1.address = some addr ∨ addr ∈ pageAddrs (some e.1.address) page)
            with hsame | hmem
          · obtain rfl := Option.some.inj hsame
            exact List.mem_cons_self
          · exact List.mem_cons_of_mem _ hmem

theorem mem_pageAddrs_none {addr : Address} {page : List (StorageKey × Nat)} :
    addr ∈ pageAddrs none page ↔ addr ∈ page.map (fun e => e.1.address) :=
  ⟨mem_pageAddrs, fun h => (pageAddrs_mem h).resolve_left (by simp)⟩

-- the cache once the first entries of the storage are read
def Scanned (codec : StateCodec H) (lib : RootLibrary H) (db : RevmStableDb) (k : Nat)
    (roots : OrdMap Address H) : Prop :=
  ∀ addr, (addr ∈ (db.storage.entries.take k).map (fun e => e.1.address) →
    roots.get addr = rootEntry codec lib db addr) ∧
  (addr ∉ (db.storage.entries.take k).map (fun e => e.1.address) → roots.get addr = none)

theorem scanned_iff {k : Nat} {roots : OrdMap Address H} : Scanned codec lib db k roots ↔
    ∀ addr, roots.get addr =
      if addr ∈ (db.storage.entries.take k).map (fun e => e.1.address) then
        rootEntry codec lib db addr
      else none := by
  refine forall_congr' (fun addr => ?_)
  split_ifs with hmem
  · exact ⟨fun h => h.1 hmem, fun h => ⟨fun _ => h, fun hnot => absurd hmem hnot⟩⟩
  · exact ⟨fun h => h.2 hmem, fun h => ⟨fun hin => absurd hin hmem, fun _ => h⟩⟩

theorem scanned_empty : Scanned codec lib db 0 .empty := by
  refine scanned_iff.mpr (fun addr => ?_)
  rw [List.take_zero]
  rfl

theorem scanned_page {k : Nat} {roots : OrdMap Address H} (h : Scanned codec lib db k roots)
    (n : Nat) : Scanned codec lib db (k + ((db.storage.entries.drop k).take n).length)
      ((pageAddrs none ((db.storage.entries.drop k).take n)).foldl (setStorageRoot codec lib db)
        roots) := by
  refine scanned_iff.mpr (fun addr => ?_)
  have htake : db.storage.entries.take (k + ((db.storage.entries.drop k).take n).length) =
      db.storage.entries.take k ++ (db.storage.entries.drop k).take n := by
    rw [List.take_add, List.length_take, List.take_eq_take_min.symm]
  rw [get_setStorageRoots, scanned_iff.mp h addr, htake, List.map_append]
  simp only [List.mem_append, mem_pageAddrs_none]
  by_cases hpage : addr ∈ ((db.storage.entries.drop k).take n).map (fun e => e.1.address)
  · rw [if_pos hpage, if_pos (.inr hpage)]
  · rw [if_neg hpage]
    simp only [hpage, or_false]

theorem cached_of_scanned {k : Nat} {roots : OrdMap Address H} (h : Scanned codec lib db k roots)
    (hk : db.storage.entries.length ≤ k) : Cached codec lib db roots := by
  intro addr
  rw [scanned_iff.mp h addr, List.take_of_length_le hk]
  split_ifs with hmem
  · rfl
  · refine (if_pos (rootAt_noStorage (fun slot => ?_))).symm
    cases hget : db.storage.get ⟨addr, slot⟩ with
    | none => rfl
    | some value =>
        have hentry : ((⟨addr, slot⟩ : StorageKey), value) ∈ db.storage.entries :=
          OrdMap.mem_entries.mpr hget
        exact absurd (List.mem_map.mpr ⟨_, hentry, rfl⟩) hmem

def accountAddrs (db : RevmStableDb) : List Address :=
  (addrSet (db.accounts.keys ++ storageAddrs db)).keys

-- whatever storage roots are right, a trie of all the accounts is built without untidy removals
def TidyWorld (c : Crypto) (codec : StateCodec H) (db : RevmStableDb) : Prop :=
  ∀ roots, RightRoots c codec db roots → TidyOps (fun _ => none)
    (sortByKey ((accountAddrs db).map
      (fun addr => accountOp c codec addr (accountFromState c codec db addr (roots addr)))))

theorem tidyRebuild_of_cached (h : TidyWorld c codec db) {t : TrieState H}
    (hcached : Cached codec lib db t.storageRoots) : TidyRebuild c codec db t := by
  intro roots hroots
  have hsame : rebuiltAddrs db t = accountAddrs db := by
    refine congrArg OrdMap.keys (addrSet_ext (fun addr => ?_))
    rw [List.mem_append, List.mem_append, List.mem_append, OrdMap.mem_keys, OrdMap.mem_keys]
    constructor
    · rintro ((haccount | ⟨root, hroot⟩) | hstorage)
      · exact .inl haccount
      · exact .inr (hcached.storage hroot)
      · exact .inr hstorage
    · rintro (haccount | hstorage)
      · exact .inl (.inl haccount)
      · exact .inr hstorage
  rw [rebuildOps, hsame]
  exact h roots hroots

theorem Cached.nonempty {roots : OrdMap Address H} (h : Cached codec lib db roots) :
    NoEmptyRoot codec roots := by
  intro addr hget
  rw [h addr, rootEntry] at hget
  split_ifs at hget with hroot
  exact hroot (Option.some.inj hget)

-- the leaf of every account, under its address
def LeafTable (c : Crypto) (codec : StateCodec H) (db : RevmStableDb) (t : RootState H) : Prop :=
  ∀ addr, LeafHash codec (addrKey c addr)
    (accountValues c codec db (storedRoot codec t.toTrieState) addr) (t.accountLeafHash.get addr)

structure Filled (c : Crypto) (codec : StateCodec H) (lib : RootLibrary H) (db : RevmStableDb)
    (t : RootState H) : Prop where
  cached : Cached codec lib db t.storageRoots
  records : ∃ root, Mirrors c codec (.new t.store.nodeDb) db (storedRoot codec t.toTrieState) root
  leaves : LeafTable c codec db t

structure Migrated (c : Crypto) (codec : StateCodec H) (db : RevmStableDb) (t : RootState H) :
    Prop where
  phase : t.phase = .done
  initialized : t.initialized = true
  nonempty : NoEmptyRoot codec t.storageRoots
  mirrors : Mirrors c codec (.new t.store.nodeDb) db (storedRoot codec t.toTrieState) t.stateRoot
  leaves : LeafTable c codec db t

theorem filled_rebuildNodeDb (hlawful : codec.Lawful) (hapart : Apart c A S) (hwithin : Within A S db)
    (hlib : lib.Right c codec) (htidy : TidyWorld c codec db)
    (hcached : Cached codec lib db t.storageRoots) :
    ∃ t', rebuildNodeDb c codec db t = some t' ∧ Filled c codec lib db t' ∧
      t'.phase = t.phase ∧ t'.initialized = t.initialized := by
  let cleared : RootState H := { t with
    store := { t.store with nodeDb := .empty, gcQueue := .empty, gcState := .new } }
  have hempty : Genuine codec.toNodeCodec (.new cleared.store.nodeDb) :=
    genuine_new (fun _ _ h => absurd h (by simp [cleared]))
  have hright := rightRoots_rootAt hlawful hapart hwithin hlib
  have hstored : storedRoot codec cleared.toTrieState = rootAt codec lib db := hcached.storedRoot
  have hstale : NoStale codec db cleared.toTrieState := by
    intro addr hnone
    rw [hstored]
    exact rootAt_noStorage hnone
  obtain ⟨j, roots, hj, hmirrors, hleaves⟩ := mirrors_journalFull (t := cleared.toTrieState) hlawful
    hapart hwithin hempty hstale
    (fun addr root hroot => by
      obtain ⟨slot, value, hvalue⟩ := mem_storageAddrs.mp (hcached.storage hroot)
      exact (hwithin.storage _ value hvalue).1)
    (tidyRebuild_of_cached htidy hcached)
  have hroots : roots = storedRoot codec cleared.toTrieState := by
    rw [hstored]
    exact rightRoots_unique hlawful (hmirrors.isStateRoot hlawful).storage hright
  subst hroots
  have hfresh : cleared.store.Fresh := ⟨fun _ _ h => absurd h (by simp [cleared]), rfl⟩
  let filled : RootState H := { cleared with
    store := cleared.store.applyJournal (emptyRoot codec) (journalUpdate j)
    accountLeafHash := j.updatedAccountLeafHashes }
  have hfilled : rebuildNodeDb c codec db t = some filled := by
    rw [rebuildNodeDb]
    exact congrArg (Option.map _) hj
  have happlied : Mirrors c codec (.new filled.store.nodeDb) db (storedRoot codec filled.toTrieState)
      j.stateRoot := mirrors_appliedFresh hfresh hmirrors (emptyRoot codec)
  exact ⟨filled, hfilled, ⟨hcached, ⟨j.stateRoot, happlied⟩, hleaves⟩, rfl, rfl⟩

-- what holds between two ticks, phase by phase
def Migrating (c : Crypto) (codec : StateCodec H) (lib : RootLibrary H) (db : RevmStableDb)
    (t : RootState H) : Prop :=
  match t.phase with
  | .done => t.initialized = true → Migrated c codec db t
  | .init => True
  | .buildTrie => t.cursor ≤ db.storage.entries.length ∧
      (t.cursor = 0 ∨ Scanned codec lib db t.cursor t.storageRoots)
  | .buildRefcnt => Cached codec lib db t.storageRoots
  | .verify => Filled c codec lib db t

def ticksLeft (db : RevmStableDb) (t : RootState H) : Nat :=
  match t.phase with
  | .done => if t.initialized then 0 else db.storage.entries.length + 5
  | .init => db.storage.entries.length + 4
  | .buildTrie => db.storage.entries.length - t.cursor + 3
  | .buildRefcnt => 2
  | .verify => 1

structure Ticks (c : Crypto) (codec : StateCodec H) (lib : RootLibrary H) (db : RevmStableDb)
    (t : RootState H) (r : Bool × RootState H) : Prop where
  migrating : Migrating c codec lib db r.2
  left : ticksLeft db r.2 = ticksLeft db t - 1 ∨ ticksLeft db r.2 < ticksLeft db t
  finished : r.1 = true ↔ ticksLeft db r.2 = 0

theorem ticks_buildTrie (h : Migrating c codec lib db t) (hphase : t.phase = .buildTrie) (maxSteps : Nat) :
    ∃ r, runMigrationTick c codec lib db maxSteps t = some r ∧ Ticks c codec lib db t r := by
  rw [Migrating, hphase] at h
  obtain ⟨hcursor, hroots⟩ := h
  have hscanned : Scanned codec lib db t.cursor (if t.cursor = 0 then .empty else t.storageRoots) := by
    by_cases hzero : t.cursor = 0
    · rw [if_pos hzero, hzero]
      exact scanned_empty
    · rw [if_neg hzero]
      exact hroots.resolve_left hzero
  have hpage := scanned_page hscanned (max maxSteps 1)
  have hlength : ((db.storage.entries.drop t.cursor).take (max maxSteps 1)).length =
      min (max maxSteps 1) (db.storage.entries.length - t.cursor) := by
    rw [List.length_take, List.length_drop]
  rw [runMigrationTick, hphase]
  dsimp only
  by_cases hshort : ((db.storage.entries.drop t.cursor).take (max maxSteps 1)).length < max maxSteps 1
  · rw [if_pos hshort]
    refine ⟨_, rfl, ?_, ?_, ?_⟩
    · exact cached_of_scanned hpage (by omega)
    · simp only [ticksLeft, hphase]
      omega
    · simp [ticksLeft]
  · rw [if_neg hshort]
    refine ⟨_, rfl, ?_, ?_, ?_⟩
    · simp only [Migrating, hphase]
      exact ⟨by omega, .inr hpage⟩
    · simp only [ticksLeft, hphase]
      omega
    · simp [ticksLeft, hphase]

theorem ticks_runMigrationTick (hlawful : codec.Lawful) (hapart : Apart c A S)
    (hwithin : Within A S db) (hlib : lib.Right c codec) (htidy : TidyWorld c codec db)
    (h : Migrating c codec lib db t) (maxSteps : Nat) :
    ∃ r, runMigrationTick c codec lib db maxSteps t = some r ∧ Ticks c codec lib db t r := by
  cases hphase : t.phase with
  | done =>
      rw [runMigrationTick, hphase]
      dsimp only
      split_ifs with hinitialized
      · refine ⟨_, rfl, h, ?_, ?_⟩
        · simp [ticksLeft, hphase, hinitialized]
        · simp [ticksLeft, hphase, hinitialized]
      · refine ⟨_, rfl, trivial, ?_, ?_⟩
        · simp [ticksLeft, hphase, hinitialized]
        · simp [ticksLeft]
  | init =>
      rw [runMigrationTick, hphase]
      refine ⟨_, rfl, ⟨Nat.zero_le _, .inl rfl⟩, ?_, ?_⟩
      · simp [ticksLeft, hphase]
      · simp [ticksLeft]
  | buildTrie => exact ticks_buildTrie h hphase maxSteps
  | buildRefcnt =>
      rw [Migrating, hphase] at h
      obtain ⟨t', ht', hfilled, -, -⟩ := filled_rebuildNodeDb hlawful hapart hwithin hlib htidy h
      rw [runMigrationTick, hphase]
      dsimp only
      rw [ht']
      refine ⟨_, rfl, ⟨hfilled.cached, hfilled.records, hfilled.leaves⟩, ?_, ?_⟩
      · simp [ticksLeft, hphase]
      · simp [ticksLeft]
  | verify =>
      rw [Migrating, hphase] at h
      obtain ⟨root, hmirrors⟩ := h.records
      obtain ⟨e, hlists, hstored⟩ := hmirrors.state
      have hroot : computeStateRootFromCache c codec lib db t.toTrieState = root :=
        (isStateRoot_cache hlib hlists).unique hlawful (hstored.isRoot hlawful)
      rw [runMigrationTick, hphase]
      refine ⟨_, rfl, ?_, ?_, ?_⟩
      · refine fun _ => ⟨rfl, rfl, h.cached.nonempty, ?_, h.leaves⟩
        dsimp only
        rw [hroot]
        exact hmirrors
      · simp [ticksLeft, hphase]
      · simp [ticksLeft]

def runTicks (c : Crypto) (codec : StateCodec H) (lib : RootLibrary H) (db : RevmStableDb)
    (t : RootState H) (steps : List Nat) : Option (RootState H) :=
  steps.foldlM (fun t maxSteps => (runMigrationTick c codec lib db maxSteps t).map Prod.snd) t

theorem ticks_runTicks (hlawful : codec.Lawful) (hapart : Apart c A S) (hwithin : Within A S db)
    (hlib : lib.Right c codec) (htidy : TidyWorld c codec db) (h : Migrating c codec lib db t)
    (steps : List Nat) : ∃ t', runTicks c codec lib db t steps = some t' ∧
      Migrating c codec lib db t' ∧ ticksLeft db t' ≤ ticksLeft db t - steps.length := by
  induction steps generalizing t with
  | nil => exact ⟨t, rfl, h, Nat.le_refl _⟩
  | cons maxSteps steps ih =>
      obtain ⟨r, hr, hticks⟩ :=
        ticks_runMigrationTick hlawful hapart hwithin hlib htidy h maxSteps
      obtain ⟨t', ht', hmigrating, hleft⟩ := ih hticks.migrating
      refine ⟨t', ?_, hmigrating, ?_⟩
      · rw [runTicks, List.foldlM_cons, hr]
        exact ht'
      · have hless := hticks.left
        rw [List.length_cons]
        omega

theorem migrated_of_noneLeft (h : Migrating c codec lib db t) (hleft : ticksLeft db t = 0) :
    Migrated c codec db t := by
  cases hphase : t.phase with
  | done =>
      rw [ticksLeft, hphase] at hleft
      rw [Migrating, hphase] at h
      dsimp only at hleft
      split_ifs at hleft with hinitialized
      exact h hinitialized
  | init => simp [ticksLeft, hphase] at hleft
  | buildTrie => simp [ticksLeft, hphase] at hleft
  | buildRefcnt => simp [ticksLeft, hphase] at hleft
  | verify => simp [ticksLeft, hphase] at hleft

-- no account is stored that the trie would leave out
def NoEmpty (c : Crypto) (db : RevmStableDb) : Prop :=
  ∀ addr val, db.accounts.get addr = some val →
    val.nonce ≠ 0 ∨ val.balance ≠ 0 ∨ normalizeCodeHash c val.codeHash ≠ keccakEmpty c

theorem tidyWorld_of_noEmpty (hlawful : codec.Lawful) (h : NoEmpty c db) : TidyWorld c codec db := by
  intro roots hroots
  refine tidyOps_of_writes (fun op hop => ?_) _
  obtain ⟨addr, haddr, rfl⟩ := List.mem_map.mp (mem_sortByKey.mp hop)
  have hlive : accountFromState c codec db addr (roots addr) ≠ none := by
    rw [accountFromState_eq]
    cases hget : db.accounts.get addr with
    | some val =>
        have hfull : ¬ isEmptyTrieAccount c codec (accountOf c (roots addr) val) = true := by
          intro hisEmpty
          obtain ⟨hnonce, hbalance, -, hcode⟩ := of_decide_eq_true hisEmpty
          rcases h addr val hget with hne | hne | hne
          · exact hne hnonce
          · exact hne hbalance
          · exact hne hcode
        rw [Option.elim_some, nonEmpty, if_neg hfull]
        exact Option.some_ne_none _
    | none =>
        have hstorage : addr ∈ storageAddrs db := by
          have hmem := mem_addrSet.mp haddr
          rw [List.mem_append, OrdMap.mem_keys, hget] at hmem
          exact hmem.resolve_left (by simp)
        obtain ⟨slot, value, hvalue⟩ := mem_storageAddrs.mp hstorage
        obtain ⟨e, hlists, hroot⟩ := hroots addr
        have hne : roots addr ≠ emptyRoot codec := by
          intro heq
          rw [heq] at hroot
          have hnone := hroot.entries_unique hlawful .empty
          have hentry := hlists.holds slot (codec.encodeU256 value)
            (congrArg (Option.map codec.encodeU256) hvalue)
          rw [hnone] at hentry
          cases hentry
        have hfull : ¬ isEmptyTrieAccount c codec ⟨0, 0, roots addr, keccakEmpty c⟩ = true :=
          fun hisEmpty => hne (of_decide_eq_true hisEmpty).2.2.1
        rw [Option.elim_none, nonEmpty, if_neg hfull]
        exact Option.some_ne_none _
  exact fun hmap => hlive (Option.map_eq_none_iff.mp hmap)

-- a library that inserts the leaves one by one
def builtRoot (codec : StateCodec H) (ops : List KvOp) : H :=
  match applyOps codec.toNodeCodec (none, .new .empty) ops with
  | some r => ptrToRoot codec.toNodeCodec r.1
  | none => emptyRoot codec

def builtLibrary (c : Crypto) (codec : StateCodec H) : RootLibrary H where
  storageRootUnhashed := fun slots =>
    builtRoot codec (slots.map (fun x => ⟨slotKey c x.1, some (codec.encodeU256 x.2)⟩))
  stateRootUnhashed := fun accounts =>
    builtRoot codec (accounts.map (fun x => ⟨addrKey c x.1, some (codec.encodeAccount x.2)⟩))

theorem overwrite_leaves {K V : Type} {path : K → List Nibble} {enc : V → Bytes} {l : List (K × V)}
    {e : Entries Nibble Bytes} (h : ∀ x ∈ l, e (path x.1) = some (enc x.2))
    (f : Entries Nibble Bytes) (p : List Nibble) :
    overwrite f (l.map (fun x => ⟨path x.1, some (enc x.2)⟩)) p =
      if p ∈ l.map (fun x => path x.1) then e p else f p := by
  induction l generalizing f with
  | nil => rfl
  | cons x l ih =>
      change overwrite (Function.update f (path x.1) (some (enc x.2))) _ p = _
      rw [ih (fun y hy => h y (List.mem_cons_of_mem _ hy)), List.map_cons]
      by_cases hp : p = path x.1
      · subst hp
        simp [h x List.mem_cons_self]
      · rw [Function.update_of_ne hp]
        exact if_congr (by rw [List.mem_cons, or_iff_right hp]) rfl rfl

theorem isRoot_built (hlawful : codec.Lawful) {K V : Type} {path : K → List Nibble}
    {enc : V → Bytes} {l : List (K × V)} {e : Entries Nibble Bytes} (h : Leaves path enc l e)
    (hlength : ∀ k, (path k).length = 64) : IsRoot codec.toNodeCodec 64 e
      (builtRoot codec (l.map (fun x => ⟨path x.1, some (enc x.2)⟩))) := by
  have hentries : overwrite (fun _ => none) (l.map (fun x => ⟨path x.1, some (enc x.2)⟩)) = e := by
    funext p
    rw [overwrite_leaves h.holds]
    split_ifs with hp
    · rfl
    · cases hv : e p with
      | none => rfl
      | some v =>
          obtain ⟨x, hx, hpath, -⟩ := h.only p v hv
          exact absurd (List.mem_map.mpr ⟨x, hx, hpath⟩) hp
  obtain ⟨r, hr, -, hheld⟩ := held_applyOps hlawful (n := 64)
    (genuine_new (fun _ _ h => absurd h (by simp)) : Genuine codec.toNodeCodec (.new .empty)) held_none
    (l.map (fun x => ⟨path x.1, some (enc x.2)⟩))
    (fun op hop => by
      obtain ⟨x, -, rfl⟩ := List.mem_map.mp hop
      exact hlength x.1)
    (tidyOps_of_writes (fun op hop => by
      obtain ⟨x, -, rfl⟩ := List.mem_map.mp hop
      exact Option.some_ne_none _) _)
  rw [builtRoot, hr, ← hentries]
  exact hheld.isRoot

theorem builtLibrary_right (hlawful : codec.Lawful) : (builtLibrary c codec).Right c codec where
  storage := fun _ _ h => isRoot_built hlawful h length_slotKey
  state := fun _ _ h => isRoot_built hlawful h length_addrKey

def sampleDb : RevmStableDb where
  accounts := OrdMap.empty.insert (zeroArr 20) ⟨1, 5, keccakEmpty sampleCrypto⟩
  storage := OrdMap.empty.insert ⟨zeroArr 20, 7⟩ 9
  codes := .empty

def freshRoot (codec : StateCodec H) : RootState H where
  toTrieState := emptyTrie codec
  initialized := false
  phase := .done
  cursor := 0
  lastError := 0
  accountLeafHash := .empty
  metrics := ⟨0, 0, .init⟩

theorem sampleDb_within : Within {zeroArr 20} {7} sampleDb where
  accounts := by
    intro addr val hget
    have hmem := OrdMap.mem_entries.mpr hget
    exact (Prod.mk.inj (List.mem_singleton.mp hmem)).1
  storage := by
    intro key val hget
    have hmem := OrdMap.mem_entries.mpr hget
    obtain ⟨rfl, -⟩ := Prod.mk.inj (List.mem_singleton.mp hmem)
    exact ⟨rfl, rfl⟩

theorem sampleDb_noEmpty : NoEmpty sampleCrypto sampleDb := by
  intro addr val hget
  have hmem := OrdMap.mem_entries.mpr hget
  obtain ⟨-, rfl⟩ := Prod.mk.inj (List.mem_singleton.mp hmem)
  exact .inl Nat.one_ne_zero

end Kasane.Trie
