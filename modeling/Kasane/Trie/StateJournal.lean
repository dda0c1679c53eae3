import Kasane.Trie.StoragePass

namespace Kasane.Trie

open BigEndian Patricia JournalBuilder Chain Exec Listing

variable {H : Type} [LinearOrder H] {c : Crypto} {codec : StateCodec H} {A : Set Address}
  {S : Set Nat} {db db' : RevmStableDb} {t : TrieState H} {delta : TrieDelta}
  {touchedAddrs : List Address} {x : StoragePass H} {b : JournalBuilder H}

def rootOf (codec : StateCodec H) (t : TrieState H) (x : StoragePass H) (addr : Address) : H :=
  (x.rootAfter codec addr).getD (storedRoot codec t addr)

theorem rootOf_some {addr : Address} {p : Option (RlpNode H)} (h : x.ptrAfter.get addr = some p) :
    rootOf codec t x addr = ptrToRoot codec.toNodeCodec p := by
  rw [rootOf, StoragePass.rootAfter, h]
  rfl

theorem rootOf_none {addr : Address} (h : x.ptrAfter.get addr = none) :
    rootOf codec t x addr = storedRoot codec t addr := by
  rw [rootOf, StoragePass.rootAfter, h]
  rfl

def storageRootOf (u : StorageRootUpdate H) (codec : StateCodec H) : H :=
  u.storageRoot.getD (emptyRoot codec)

theorem storageRootOf_updateOf (codec : StateCodec H) (addr : Address) (p : Option (RlpNode H)) :
    storageRootOf (updateOf codec addr p) codec = ptrToRoot codec.toNodeCodec p := by
  rw [storageRootOf, updateOf]
  split_ifs with h
  · exact h.symm
  · rfl

theorem forceStorageRoots_eq (h : Passed c codec db' t x) (b : JournalBuilder H) :
    forceStorageRoots codec x b =
      forceRoots codec b (x.updates.map (fun u => (x.ptrAfter.get u.addr).getD none)) := by
  rw [forceStorageRoots, forceRoots, List.foldl_map]
  refine List.foldl_ext _ _ _ (fun b u hu => ?_)
  obtain ⟨p, hp, heq, -⟩ := (h.updates u).mp hu
  have hroot := storageRootOf_updateOf codec u.addr p
  rw [← heq, storageRootOf] at hroot
  rw [hroot, hp]
  rfl

theorem mem_targetStorageAddrs {addr : Address} :
    addr ∈ targetStorageAddrs delta touchedAddrs ↔ addr ∈ touchedAddrs ∨
      ∃ d, delta.get addr = some d ∧ (d.deleted = true ∨ d.storage.entries ≠ []) := by
  rw [targetStorageAddrs, mem_addrSet, List.mem_append, List.mem_map]
  refine or_congr_right ⟨?_, ?_⟩
  · rintro ⟨e, he, rfl⟩
    obtain ⟨hmem, hd⟩ := List.mem_filter.mp he
    exact ⟨e.2, OrdMap.mem_entries.mp hmem, by simpa using hd⟩
  · rintro ⟨d, hd, hcase⟩
    exact ⟨(addr, d), List.mem_filter.mpr ⟨OrdMap.mem_entries.mpr hd, by simpa using hcase⟩, rfl⟩

-- the storage of an address that the pass leaves out is as it was
theorem storageValues_untouched (hs : Settled c codec A S db db' t delta) {addr : Address}
    (h : addr ∉ targetStorageAddrs delta touchedAddrs) :
    storageValues codec db' addr = storageValues codec db addr := by
  rw [mem_targetStorageAddrs, not_or] at h
  have htells := hs.tells addr
  cases hget : delta.get addr with
  | none =>
      rw [hget] at htells
      exact storageValues_of_same htells.2
  | some d =>
      have hcase : ¬ (d.deleted = true ∨ d.storage.entries ≠ []) := fun hcase => h.2 ⟨d, hget, hcase⟩
      rw [not_or, not_not, Bool.not_eq_true] at hcase
      rw [hget] at htells
      refine storageValues_of_same (fun slot => ?_)
      have hnone : d.storage.get slot = none := by
        rw [OrdMap.get, hcase.2]
        rfl
      rw [(htells.2 hcase.1).2 slot, hnone]
      rfl

theorem stored_storage (hlawful : codec.Lawful) (hs : Settled c codec A S db db' t delta)
    (hpassed : Passed c codec db' t x)
    (hkeys : ∀ addr, (x.ptrAfter.get addr).isSome ↔ addr ∈ targetStorageAddrs delta touchedAddrs)
    (hgrows : Grows codec.toNodeCodec x.builder b) (addr : Address) :
    ∃ e, Lists (slotKey c) (storageValues codec db' addr) e ∧
      Stored codec.toNodeCodec (forceStorageRoots codec x b) 64 (rootOf codec t x addr) e := by
  have hforced := grows_forceRoots hlawful hgrows.genuine
    (x.updates.map (fun u => (x.ptrAfter.get u.addr).getD none))
  obtain ⟨e, hlists, hstored⟩ := hs.mirrors.storage addr
  have hold := hstored.grows ((hpassed.grows.trans hgrows).trans hforced)
  rw [forceStorageRoots_eq hpassed]
  cases hptr : x.ptrAfter.get addr with
  | none =>
      have hnot : addr ∉ targetStorageAddrs delta touchedAddrs := by
        rw [← hkeys, hptr]
        exact Bool.false_ne_true
      rw [rootOf_none hptr, storageValues_untouched hs hnot]
      exact ⟨e, hlists, hold⟩
  | some p =>
      obtain ⟨e', hlists', hheld⟩ := hpassed.reached addr p hptr
      rw [rootOf_some hptr]
      refine ⟨e', hlists', ?_⟩
      by_cases hroot : ptrToRoot codec.toNodeCodec p = storedRoot codec t addr
      · rw [hroot]
        have hsame := hheld.isRoot
        rw [hroot] at hsame
        rwa [hsame.entries_unique hlawful (hstored.isRoot hlawful)]
      · refine stored_forceRoots hlawful hgrows.genuine (List.mem_map.mpr ⟨updateOf codec addr p, ?_, ?_⟩)
          (hheld.grows hgrows)
        · exact (hpassed.updates _).mpr ⟨p, hptr, rfl, hroot⟩
        · exact congrArg (Option.getD · none) hptr

theorem root_of_noStorage (hlawful : codec.Lawful) {addr : Address} {e : Entries Nibble Bytes}
    {root : H} (hlists : Lists (slotKey c) (storageValues codec db addr) e)
    (hnone : ∀ slot, db.storage.get ⟨addr, slot⟩ = none)
    (hroot : IsRoot codec.toNodeCodec 64 e root) : root = emptyRoot codec := by
  have hvalues : storageValues codec db addr = fun _ => none := by
    funext slot
    rw [storageValues, hnone slot]
    rfl
  rw [hvalues] at hlists
  rw [hlists.unique lists_none] at hroot
  exact hroot.unique hlawful .empty

theorem isEmpty_noAccount {root : H} (h : root = emptyRoot codec) :
    isEmptyTrieAccount c codec ⟨0, 0, root, keccakEmpty c⟩ = true := by
  rw [isEmptyTrieAccount, decide_eq_true_iff]
  exact ⟨rfl, rfl, h, rfl⟩

theorem accountFromState_none (hlawful : codec.Lawful) {addr : Address} {e : Entries Nibble Bytes}
    {root : H} (hlists : Lists (slotKey c) (storageValues codec db addr) e)
    (hnone : ∀ slot, db.storage.get ⟨addr, slot⟩ = none) (haccount : db.accounts.get addr = none)
    (hroot : IsRoot codec.toNodeCodec 64 e root) : accountFromState c codec db addr root = none := by
  rw [accountFromState, haccount]
  exact if_pos (isEmpty_noAccount (root_of_noStorage hlawful hlists hnone hroot))

theorem mem_of_accountValues (hlawful : codec.Lawful) (hs : Settled c codec A S db db' t delta)
    {addr : Address} (h : accountValues c codec db (storedRoot codec t) addr ≠ none) : addr ∈ A := by
  obtain ⟨e, hlists, hstored⟩ := hs.mirrors.storage addr
  by_contra hout
  have haccount : db.accounts.get addr = none := by
    cases hget : db.accounts.get addr with
    | none => rfl
    | some val => exact absurd (hs.within.accounts addr val hget) hout
  have hnone (slot : Nat) : db.storage.get ⟨addr, slot⟩ = none := by
    cases hget : db.storage.get ⟨addr, slot⟩ with
    | none => rfl
    | some val => exact absurd (hs.within.storage _ val hget).1 hout
  refine h ?_
  rw [accountValues, accountFromState_none hlawful hlists hnone haccount (hstored.isRoot hlawful)]
  rfl

theorem accountFromState_congr (addr : Address) (root : H)
    (h : db'.accounts.get addr = db.accounts.get addr) :
    accountFromState c codec db' addr root = accountFromState c codec db addr root := by
  rw [accountFromState, h, accountFromState]

-- the account that the delta gives is the one that its commit leaves
theorem targetAccount_eq (hlawful : codec.Lawful) (hs : Settled c codec A S db db' t delta)
    {addr : Address} {e : Entries Nibble Bytes}
    (hlists : Lists (slotKey c) (storageValues codec db' addr) e)
    (hroot : IsRoot codec.toNodeCodec 64 e (rootOf codec t x addr)) :
    targetAccount c codec db t delta x addr =
      accountFromState c codec db' addr (rootOf codec t x addr) := by
  have htells := hs.tells addr
  rw [targetAccount]
  cases hget : delta.get addr with
  | none =>
      rw [hget] at htells
      exact (accountFromState_congr addr _ htells.1).symm
  | some d =>
      rw [hget] at htells
      cases hd : d.deleted with
      | true =>
          have hgone := htells.1 hd
          rw [accountFromState_none hlawful hlists hgone.2 hgone.1 hroot]
          exact if_pos hd
      | false =>
          have hdeleted : ¬ d.deleted = true := by rw [hd]; exact Bool.false_ne_true
          refine (if_neg hdeleted).trans ?_
          rw [accountFromState, (htells.2 hd).1]
          rfl

def changedAddrs (delta : TrieDelta) (touchedAddrs : List Address) : List Address :=
  (addrSet (delta.keys ++ touchedAddrs)).keys

theorem mem_changedAddrs {addr : Address} :
    addr ∈ changedAddrs delta touchedAddrs ↔ (∃ d, delta.get addr = some d) ∨ addr ∈ touchedAddrs := by
  rw [changedAddrs, mem_addrSet, List.mem_append, OrdMap.mem_keys]

theorem addrSet_ext {addrs addrs' : List Address} (h : ∀ addr, addr ∈ addrs ↔ addr ∈ addrs') :
    addrSet addrs = addrSet addrs' := by
  refine OrdMap.ext_get (fun addr => ?_)
  have hkeys : addr ∈ (addrSet addrs).keys ↔ addr ∈ (addrSet addrs').keys := by
    rw [mem_addrSet, mem_addrSet, h]
  rw [OrdMap.mem_keys, OrdMap.mem_keys] at hkeys
  cases hget : (addrSet addrs).get addr with
  | some v =>
      obtain ⟨v', hget'⟩ := hkeys.mp ⟨v, hget⟩
      rw [hget']
  | none =>
      cases hget' : (addrSet addrs').get addr with
      | none => rfl
      | some v' =>
          obtain ⟨v, hv⟩ := hkeys.mpr ⟨v', hget'⟩
          rw [hget] at hv
          cases hv

-- a storage root changes only where the delta or the touched addresses say
theorem targetAccountAddrs_eq (h : Passed c codec db' t x)
    (hkeys : ∀ addr, (x.ptrAfter.get addr).isSome ↔ addr ∈ targetStorageAddrs delta touchedAddrs) :
    targetAccountAddrs delta touchedAddrs x.updates = changedAddrs delta touchedAddrs := by
  refine congrArg OrdMap.keys (addrSet_ext (fun addr => ?_))
  rw [List.mem_append, or_iff_left_iff_imp]
  intro hmem
  obtain ⟨u, hu, rfl⟩ := List.mem_map.mp hmem
  obtain ⟨p, hp, -⟩ := (h.updates u).mp hu
  have htarget := (hkeys u.addr).mp (by rw [hp]; rfl)
  rw [List.mem_append, OrdMap.mem_keys]
  rcases mem_targetStorageAddrs.mp htarget with htouched | ⟨d, hd, -⟩
  · exact .inr htouched
  · exact .inl ⟨d, hd⟩

def accountChanges (c : Crypto) (codec : StateCodec H) (db : RevmStableDb) (delta : TrieDelta)
    (touchedAddrs : List Address) (roots : Address → H) : List KvOp :=
  sortByKey ((changedAddrs delta touchedAddrs).map
    (fun addr => accountOp c codec addr (accountFromState c codec db addr (roots addr))))

theorem accountOps_eq (hlawful : codec.Lawful) (hs : Settled c codec A S db db' t delta)
    (hpassed : Passed c codec db' t x)
    (hkeys : ∀ addr, (x.ptrAfter.get addr).isSome ↔ addr ∈ targetStorageAddrs delta touchedAddrs)
    (hroots : ∀ addr, ∃ e, Lists (slotKey c) (storageValues codec db' addr) e ∧
      IsRoot codec.toNodeCodec 64 e (rootOf codec t x addr)) :
    accountOps c codec db t delta touchedAddrs x =
      accountChanges c codec db' delta touchedAddrs (rootOf codec t x) := by
  rw [accountOps, targetAccountAddrs_eq hpassed hkeys, accountChanges]
  refine congrArg sortByKey (List.map_congr_left (fun addr _ => ?_))
  obtain ⟨e, hlists, hroot⟩ := hroots addr
  rw [targetAccount_eq hlawful hs hlists hroot]

theorem accountValues_unchanged (hs : Settled c codec A S db db' t delta)
    (hkeys : ∀ addr, (x.ptrAfter.get addr).isSome ↔ addr ∈ targetStorageAddrs delta touchedAddrs)
    {addr : Address} (h : addr ∉ changedAddrs delta touchedAddrs) :
    accountValues c codec db' (rootOf codec t x) addr =
      accountValues c codec db (storedRoot codec t) addr := by
  rw [mem_changedAddrs, not_or] at h
  have hnone : delta.get addr = none := by
    cases hget : delta.get addr with
    | none => rfl
    | some d => exact absurd ⟨d, hget⟩ h.1
  have hptr : x.ptrAfter.get addr = none := by
    rw [← Option.not_isSome_iff_eq_none, hkeys, mem_targetStorageAddrs, not_or]
    refine ⟨h.2, ?_⟩
    rintro ⟨d, hd, -⟩
    exact h.1 ⟨d, hd⟩
  have htells := hs.tells addr
  rw [hnone] at htells
  rw [accountValues, accountFromState_congr addr _ htells.1, rootOf_none hptr, accountValues]

theorem lists_accountChanges (hlawful : codec.Lawful) (hs : Settled c codec A S db db' t delta)
    (hkeys : ∀ addr, (x.ptrAfter.get addr).isSome ↔ addr ∈ targetStorageAddrs delta touchedAddrs)
    (hdelta : ∀ addr d, delta.get addr = some d → addr ∈ A) (htouched : ∀ addr ∈ touchedAddrs, addr ∈ A)
    {e : Entries Nibble Bytes}
    (hlists : Lists (addrKey c) (accountValues c codec db (storedRoot codec t)) e) :
    Lists (addrKey c) (accountValues c codec db' (rootOf codec t x))
      (overwrite e (accountChanges c codec db' delta touchedAddrs (rootOf codec t x))) := by
  let es := (changedAddrs delta touchedAddrs).map
    (fun addr => (addr, accountValues c codec db' (rootOf codec t x) addr))
  have hfst : es.map Prod.fst = changedAddrs delta touchedAddrs := by
    rw [List.map_map]
    exact List.map_id _
  have hnodup : (es.map Prod.fst).Nodup := by
    rw [hfst]
    exact OrdMap.keys_nodup _
  have hwrites := lists_overwrite hs.apart.addrs
    (fun addr haddr => mem_of_accountValues hlawful hs haddr) hlists es
    (fun y hy => by
      obtain ⟨addr, haddr, rfl⟩ := List.mem_map.mp hy
      rcases mem_changedAddrs.mp haddr with ⟨d, hd⟩ | hmem
      · exact hdelta addr d hd
      · exact htouched addr hmem) hnodup
  rw [List.map_map] at hwrites
  have hsame : writes (accountValues c codec db (storedRoot codec t)) es =
      accountValues c codec db' (rootOf codec t x) := by
    funext addr
    by_cases haddr : addr ∈ changedAddrs delta touchedAddrs
    · exact writes_of_mem hnodup (List.mem_map.mpr ⟨addr, haddr, rfl⟩) _
    · rw [writes_of_not_mem (by rwa [hfst]), accountValues_unchanged hs hkeys haddr]
  rwa [hsame] at hwrites

def storeRoot (roots : OrdMap Address H) (u : StorageRootUpdate H) : OrdMap Address H :=
  match u.storageRoot with
  | some root => roots.insert u.addr root
  | none => roots.remove u.addr

def rootsAfter (roots : OrdMap Address H) (updates : List (StorageRootUpdate H)) :
    OrdMap Address H := updates.foldl storeRoot roots

theorem get_storeRoot (roots : OrdMap Address H) (u : StorageRootUpdate H) (addr : Address) :
    (storeRoot roots u).get addr = if addr = u.addr then u.storageRoot else roots.get addr := by
  rw [storeRoot]
  cases hroot : u.storageRoot with
  | some root =>
      dsimp only
      rw [OrdMap.get_insert]
      congr
  | none =>
      dsimp only
      rw [OrdMap.get_remove]
      congr

theorem get_rootsAfter (roots : OrdMap Address H) {updates : List (StorageRootUpdate H)}
    (root : Address → Option H) (h : ∀ u ∈ updates, u.storageRoot = root u.addr) (addr : Address) :
    (rootsAfter roots updates).get addr =
      if addr ∈ updates.map StorageRootUpdate.addr then root addr else roots.get addr := by
  induction updates generalizing roots with
  | nil => rfl
  | cons u updates ih =>
      change (rootsAfter (storeRoot roots u) updates).get addr = _
      rw [ih _ (fun v hv => h v (List.mem_cons_of_mem _ hv)), get_storeRoot,
        h u List.mem_cons_self]
      by_cases haddr : addr = u.addr
      · subst haddr
        simp
      · simp [haddr]

-- an address without storage is not in the cache
def NoEmptyRoot (codec : StateCodec H) (roots : OrdMap Address H) : Prop :=
  ∀ addr, roots.get addr ≠ some (emptyRoot codec)

theorem noEmptyRoot_rootsAfter {roots : OrdMap Address H} (h : NoEmptyRoot codec roots)
    {updates : List (StorageRootUpdate H)}
    (hupdates : ∀ u ∈ updates, u.storageRoot ≠ some (emptyRoot codec)) :
    NoEmptyRoot codec (rootsAfter roots updates) := by
  induction updates generalizing roots with
  | nil => exact h
  | cons u updates ih =>
      refine ih (fun addr => ?_) (fun v hv => hupdates v (List.mem_cons_of_mem _ hv))
      rw [get_storeRoot]
      split_ifs
      · exact hupdates u List.mem_cons_self
      · exact h addr

theorem updates_storageSteps {delta : TrieDelta} {touchedAddrs : List Address} (addrs : List Address)
    {x x' : StoragePass H} (h : ∀ u ∈ x.updates, u.storageRoot ≠ some (emptyRoot codec))
    (hrun : addrs.foldlM (storageStep c codec db t delta touchedAddrs) x = some x') :
    ∀ u ∈ x'.updates, u.storageRoot ≠ some (emptyRoot codec) := by
  induction addrs generalizing x with
  | nil =>
      obtain rfl := Option.some.inj hrun
      exact h
  | cons addr addrs ih =>
      rw [List.foldlM_cons] at hrun
      obtain ⟨x₁, hstep, hrun⟩ := Option.bind_eq_some_iff.mp hrun
      obtain ⟨r, -, rfl⟩ := Option.map_eq_some_iff.mp hstep
      refine ih (fun u hu => ?_) hrun
      dsimp only at hu
      split_ifs at hu with hsame hempty
      · exact h u hu
      · rcases List.mem_append.mp hu with hu | hu
        · exact h u hu
        · obtain rfl := List.mem_singleton.mp hu
          exact (Option.some_ne_none _).symm
      · rcases List.mem_append.mp hu with hu | hu
        · exact h u hu
        · obtain rfl := List.mem_singleton.mp hu
          exact fun heq => hempty (Option.some.inj heq)

-- a storage root that becomes the empty one is taken out of the cache
theorem updates_journal {delta : TrieDelta} {touchedAddrs : List Address} {j : TrieUpdateJournal H}
    (h : buildStateUpdateJournal c codec db t delta touchedAddrs = some j) :
    ∀ u ∈ j.storageUpdates, u.storageRoot ≠ some (emptyRoot codec) := by
  obtain ⟨x, hx, h⟩ := Option.bind_eq_some_iff.mp h
  obtain ⟨r, -, h⟩ := Option.bind_eq_some_iff.mp h
  obtain rfl := Option.some.inj h
  exact updates_storageSteps _ (fun _ hu => absurd hu List.not_mem_nil) hx

theorem storedRoot_rootsAfter (hpassed : Passed c codec db' t x) (addr : Address) :
    ((rootsAfter t.storageRoots x.updates).get addr).getD (emptyRoot codec) =
      rootOf codec t x addr := by
  rw [get_rootsAfter t.storageRoots
    (fun addr => (updateOf codec addr ((x.ptrAfter.get addr).getD none)).storageRoot) (fun u hu => by
      obtain ⟨p, hp, heq, -⟩ := (hpassed.updates u).mp hu
      rw [hp]
      exact congrArg StorageRootUpdate.storageRoot heq)]
  split_ifs with hmem
  · obtain ⟨u, hu, rfl⟩ := List.mem_map.mp hmem
    obtain ⟨p, hp, -⟩ := (hpassed.updates u).mp hu
    rw [rootOf_some hp, hp]
    exact storageRootOf_updateOf _ u.addr p
  · cases hptr : x.ptrAfter.get addr with
    | none =>
        rw [rootOf_none hptr]
        rfl
    | some p =>
        have hkept : ptrToRoot codec.toNodeCodec p = storedRoot codec t addr := by
          by_contra hroot
          refine hmem (List.mem_map.mpr ⟨updateOf codec addr p, ?_, rfl⟩)
          exact (hpassed.updates _).mpr ⟨p, hptr, rfl, hroot⟩
        rw [rootOf_some hptr, hkept]
        rfl

-- the journal's records hold the tries of the state that its delta leads to
theorem mirrors_journal (hlawful : codec.Lawful) (hs : Settled c codec A S db db' t delta)
    (hdelta : ∀ addr d, delta.get addr = some d → addr ∈ A) (htouched : ∀ addr ∈ touchedAddrs, addr ∈ A)
    (htidy : ∀ roots e, (∀ addr, ∃ e, Lists (slotKey c) (storageValues codec db' addr) e ∧
        IsRoot codec.toNodeCodec 64 e (roots addr)) →
      Lists (addrKey c) (accountValues c codec db (storedRoot codec t)) e →
        TidyOps e (accountChanges c codec db' delta touchedAddrs roots)) :
    ∃ j, buildStateUpdateJournal c codec db t delta touchedAddrs = some j ∧
      Mirrors c codec ⟨t.store.nodeDb, j.nodeDeltaCounts, j.newNodeRecords⟩ db'
        (fun addr => ((rootsAfter t.storageRoots j.storageUpdates).get addr).getD (emptyRoot codec))
        j.stateRoot := by
  obtain ⟨e, hlists, hstored⟩ := hs.mirrors.state
  obtain ⟨x, hx, hpassed, hkeys⟩ := passed_storagePass touchedAddrs hlawful hs
    hstored.genuine
  have hroots (addr : Address) : ∃ e, Lists (slotKey c) (storageValues codec db' addr) e ∧
      IsRoot codec.toNodeCodec 64 e (rootOf codec t x addr) := by
    obtain ⟨e, hlists, hstored⟩ := stored_storage hlawful hs hpassed hkeys
      (.refl hpassed.grows.genuine) addr
    exact ⟨e, hlists, hstored.isRoot hlawful⟩
  have hops := accountOps_eq hlawful hs hpassed hkeys hroots
  obtain ⟨r, hr, hgrows, hheld⟩ := held_applyOps hlawful hpassed.grows.genuine
    (hstored.held.grows hpassed.grows)
    (accountOps c codec db t delta touchedAddrs x)
    (fun op hop => by
      obtain ⟨addr, -, rfl⟩ := List.mem_map.mp (mem_sortByKey.mp hop)
      exact length_addrKey addr)
    (by
      rw [hops]
      exact htidy _ e hroots hlists)
  rw [hops] at hheld
  have hforced := grows_forceRoot hlawful hgrows.genuine r.1
  have hforcedRoots := grows_forceRoots hlawful hforced.genuine
    (x.updates.map (fun u => (x.ptrAfter.get u.addr).getD none))
  have hbuilt : (forceStorageRoots codec x
      (forceRootRecord codec r.2 (ptrToRoot codec.toNodeCodec r.1) r.1)).nodeDb = t.store.nodeDb := by
    rw [forceStorageRoots_eq hpassed]
    exact (((hpassed.grows.trans hgrows).trans hforced).trans hforcedRoots).nodeDb
  refine ⟨_, by rw [buildStateUpdateJournal, hx, Option.bind_eq_bind, Option.bind_some, hr]; rfl, ?_⟩
  dsimp only
  rw [← hbuilt]
  simp only [storedRoot_rootsAfter hpassed]
  refine ⟨fun addr => ?_, _, lists_accountChanges hlawful hs hkeys hdelta htouched hlists, ?_⟩
  · exact stored_storage hlawful hs hpassed hkeys (hgrows.trans hforced) addr
  · rw [forceStorageRoots_eq hpassed]
    exact (stored_forceRoot hlawful hgrows.genuine hheld).grows hforcedRoots

end Kasane.Trie
