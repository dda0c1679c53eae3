import Kasane.Trie.StateRoot

namespace Kasane.Trie

open BigEndian Patricia JournalBuilder Chain Exec Listing

variable {H : Type} [LinearOrder H] {c : Crypto} {codec : StateCodec H} {A : Set Address}
  {S : Set Nat} {db : RevmStableDb} {t : TrieState H} {x : StoragePass H}

structure Rebuilt (c : Crypto) (codec : StateCodec H) (db : RevmStableDb) (t : TrieState H)
    (x : StoragePass H) : Prop where
  grows : Grows codec.toNodeCodec (.new t.store.nodeDb) x.builder
  reached : ∀ addr p, x.ptrAfter.get addr = some p →
    ∃ e, Lists (slotKey c) (storageValues codec db addr) e ∧ Held codec.toNodeCodec x.builder 64 p e

theorem rebuilt_step (hlawful : codec.Lawful) (hapart : Apart c A S) (hwithin : Within A S db)
    (h : Rebuilt c codec db t x) (addr : Address) :
    ∃ p x', fullStorageStep c codec db x addr = some x' ∧
      x'.ptrAfter = x.ptrAfter.insert addr p ∧ Rebuilt c codec db t x' := by
  obtain ⟨r, hr, hgrows, e, hlists, hheld⟩ :=
    held_rebuilt codec hlawful hapart hwithin h.grows.genuine addr
  refine ⟨r.1, _, by rw [fullStorageStep, hr]; rfl, rfl, h.grows.trans hgrows, fun other p hp => ?_⟩
  rw [OrdMap.get_insert] at hp
  split_ifs at hp with hsame
  · obtain rfl := Option.some.inj hp
    rw [hsame]
    exact ⟨e, hlists, hheld⟩
  · obtain ⟨e', hlists', hheld'⟩ := h.reached other p hp
    exact ⟨e', hlists', hheld'.grows hgrows⟩

theorem rebuilt_steps (hlawful : codec.Lawful) (hapart : Apart c A S) (hwithin : Within A S db)
    (addrs : List Address) (h : Rebuilt c codec db t x) :
    ∃ x', addrs.foldlM (fullStorageStep c codec db) x = some x' ∧ Rebuilt c codec db t x' ∧
      ∀ addr, (x'.ptrAfter.get addr).isSome ↔ addr ∈ addrs ∨ (x.ptrAfter.get addr).isSome := by
  induction addrs generalizing x with
  | nil => exact ⟨x, rfl, h, fun addr => by simp⟩
  | cons addr addrs ih =>
      obtain ⟨p, x₁, hstep, hptr, hrebuilt⟩ := rebuilt_step hlawful hapart hwithin h addr
      obtain ⟨x', hfold, hrebuilt', hkeys⟩ := ih hrebuilt
      refine ⟨x', ?_, hrebuilt', fun other => ?_⟩
      · rw [List.foldlM_cons, hstep]
        exact hfold
      · rw [hkeys, hptr, OrdMap.get_insert, List.mem_cons]
        by_cases hother : other = addr
        · simp [hother]
        · simp [hother]

theorem mem_storageAddrs {addr : Address} :
    addr ∈ storageAddrs db ↔ ∃ slot value, db.storage.get ⟨addr, slot⟩ = some value := by
  rw [storageAddrs, mem_addrSet, List.mem_map]
  constructor
  · rintro ⟨key, hkey, rfl⟩
    obtain ⟨value, hvalue⟩ := OrdMap.mem_keys.mp hkey
    exact ⟨key.slot, value, hvalue⟩
  · rintro ⟨slot, value, hvalue⟩
    exact ⟨⟨addr, slot⟩, OrdMap.mem_keys.mpr ⟨value, hvalue⟩, rfl⟩

theorem noStorage_of_not_mem {addr : Address} (h : addr ∉ storageAddrs db) (slot : Nat) :
    db.storage.get ⟨addr, slot⟩ = none := by
  cases hget : db.storage.get ⟨addr, slot⟩ with
  | none => rfl
  | some value => exact absurd (mem_storageAddrs.mpr ⟨slot, value, hget⟩) h

-- an address without storage has no storage root of its own
def NoStale (codec : StateCodec H) (db : RevmStableDb) (t : TrieState H) : Prop :=
  ∀ addr, (∀ slot, db.storage.get ⟨addr, slot⟩ = none) → storedRoot codec t addr = emptyRoot codec

def RightRoots (c : Crypto) (codec : StateCodec H) (db : RevmStableDb) (roots : Address → H) : Prop :=
  ∀ addr, ∃ e, Lists (slotKey c) (storageValues codec db addr) e ∧
    IsRoot codec.toNodeCodec 64 e (roots addr)

theorem RightRoots.noStorage (hlawful : codec.Lawful) {roots : Address → H}
    (h : RightRoots c codec db roots) {addr : Address}
    (hnone : ∀ slot, db.storage.get ⟨addr, slot⟩ = none) : roots addr = emptyRoot codec := by
  obtain ⟨e, hlists, hroot⟩ := h addr
  exact root_of_noStorage hlawful hlists hnone hroot

def rebuiltAddrs (db : RevmStableDb) (t : TrieState H) : List Address :=
  (addrSet (db.accounts.keys ++ t.storageRoots.keys ++ storageAddrs db)).keys

theorem mem_rebuiltAddrs {addr : Address} : addr ∈ rebuiltAddrs db t ↔
    (∃ val, db.accounts.get addr = some val) ∨ (∃ root, t.storageRoots.get addr = some root) ∨
      addr ∈ storageAddrs db := by
  rw [rebuiltAddrs, mem_addrSet, List.mem_append, List.mem_append, OrdMap.mem_keys, OrdMap.mem_keys,
    or_assoc]

theorem fullAccountAddrs_eq (hkeys : ∀ addr, (x.ptrAfter.get addr).isSome ↔ addr ∈ storageAddrs db) :
    fullAccountAddrs db t x = rebuiltAddrs db t := by
  refine congrArg OrdMap.keys (addrSet_ext (fun addr => ?_))
  rw [List.mem_append, List.mem_append, List.mem_append, List.mem_append, ← hkeys, OrdMap.mem_keys,
    OrdMap.mem_keys, OrdMap.mem_keys, Option.isSome_iff_exists]

def rebuildOps (c : Crypto) (codec : StateCodec H) (db : RevmStableDb) (t : TrieState H)
    (roots : Address → H) : List KvOp :=
  sortByKey ((rebuiltAddrs db t).map
    (fun addr => accountOp c codec addr (accountFromState c codec db addr (roots addr))))

-- whatever storage roots are right, the rebuilding makes no untidy removal
def TidyRebuild (c : Crypto) (codec : StateCodec H) (db : RevmStableDb) (t : TrieState H) : Prop :=
  ∀ roots, RightRoots c codec db roots → TidyOps (fun _ => none) (rebuildOps c codec db t roots)

theorem accountFromState_outside (hlawful : codec.Lawful) {roots : Address → H}
    (hroots : RightRoots c codec db roots) {addr : Address} (h : addr ∉ rebuiltAddrs db t) :
    accountFromState c codec db addr (roots addr) = none := by
  rw [mem_rebuiltAddrs, not_or, not_or] at h
  have haccount : db.accounts.get addr = none := by
    cases hget : db.accounts.get addr with
    | none => rfl
    | some val => exact absurd ⟨val, hget⟩ h.1
  obtain ⟨e, hlists, hroot⟩ := hroots addr
  exact accountFromState_none hlawful hlists (noStorage_of_not_mem h.2.2) haccount hroot

theorem rebuilt_mem (hwithin : Within A S db)
    (hroots : ∀ addr root, t.storageRoots.get addr = some root → addr ∈ A) {addr : Address}
    (h : addr ∈ rebuiltAddrs db t) : addr ∈ A := by
  rcases mem_rebuiltAddrs.mp h with ⟨val, hval⟩ | ⟨root, hroot⟩ | hmem
  · exact hwithin.accounts addr val hval
  · exact hroots addr root hroot
  · obtain ⟨slot, value, hvalue⟩ := mem_storageAddrs.mp hmem
    exact (hwithin.storage _ value hvalue).1

theorem mem_rebuilt (hlawful : codec.Lawful) (hwithin : Within A S db)
    (hroots : ∀ addr root, t.storageRoots.get addr = some root → addr ∈ A) {roots : Address → H}
    (hright : RightRoots c codec db roots) {addr : Address}
    (h : accountValues c codec db roots addr ≠ none) : addr ∈ A := by
  refine rebuilt_mem hwithin hroots ?_
  by_contra hout
  exact h (congrArg (Option.map codec.encodeAccount) (accountFromState_outside hlawful hright hout))

theorem lists_rebuildOps (hlawful : codec.Lawful) (hapart : Apart c A S) (hwithin : Within A S db)
    (hroots : ∀ addr root, t.storageRoots.get addr = some root → addr ∈ A) {roots : Address → H}
    (hright : RightRoots c codec db roots) :
    Lists (addrKey c) (accountValues c codec db roots)
      (overwrite (fun _ => none) (rebuildOps c codec db t roots)) := by
  let es := (rebuiltAddrs db t).map (fun addr => (addr, accountValues c codec db roots addr))
  have hfst : es.map Prod.fst = rebuiltAddrs db t := by
    rw [List.map_map]
    exact List.map_id _
  have hnodup : (es.map Prod.fst).Nodup := by
    rw [hfst]
    exact OrdMap.keys_nodup _
  have hwrites := lists_overwrite hapart.addrs (f := fun _ => none) (fun _ hk => absurd rfl hk)
    lists_none es (fun y hy => by
      obtain ⟨addr, haddr, rfl⟩ := List.mem_map.mp hy
      exact rebuilt_mem hwithin hroots haddr) hnodup
  rw [List.map_map] at hwrites
  have hsame : writes (fun _ => none) es = accountValues c codec db roots := by
    funext addr
    by_cases haddr : addr ∈ rebuiltAddrs db t
    · exact writes_of_mem hnodup (List.mem_map.mpr ⟨addr, haddr, rfl⟩) _
    · rw [writes_of_not_mem (by rwa [hfst]), accountValues,
        accountFromState_outside hlawful hright haddr]
      rfl
  rwa [hsame] at hwrites

theorem get_leafHashes_some (b : JournalBuilder H) (ptr : RlpNode H) (addrs : List Address)
    (addr : Address) : (leafHashes c codec b (some ptr) addrs).get addr =
      if addr ∈ addrs then leafHashAt codec (some ptr, b) (addrKey c addr) else none := by
  have hstep (m : OrdMap Address H) (hm : ∀ a, m.get a = none ∨
      m.get a = leafHashAt codec (some ptr, b) (addrKey c a)) :
      (addrs.foldl (fun m addr =>
        (resolveLeafHashForKey codec b (addrKey c addr) ((addrKey c addr).length + 1) 0 ptr).elim m
          (m.insert addr)) m).get addr =
      if addr ∈ addrs then leafHashAt codec (some ptr, b) (addrKey c addr) else m.get addr := by
    induction addrs generalizing m with
    | nil => rfl
    | cons a addrs ih =>
        have hat : leafHashAt codec (some ptr, b) (addrKey c a) =
            resolveLeafHashForKey codec b (addrKey c a) ((addrKey c a).length + 1) 0 ptr := rfl
        rw [List.foldl_cons]
        cases hresolve : resolveLeafHashForKey codec b (addrKey c a) ((addrKey c a).length + 1) 0 ptr with
        | none =>
            rw [hresolve] at hat
            rw [Option.elim_none, ih m hm]
            by_cases haddr : addr = a
            · subst haddr
              rcases hm addr with hnone | hsome
              · simp [hat, hnone]
              · simp [hsome]
            · simp [haddr]
        | some hash =>
            rw [hresolve] at hat
            rw [Option.elim_some, ih _ (fun other => ?_), OrdMap.get_insert]
            · by_cases haddr : addr = a
              · simp [haddr, hat]
              · simp [haddr]
            · rw [OrdMap.get_insert]
              by_cases hother : other = a
              · rw [if_pos hother, hother, hat]
                exact .inr rfl
              · rw [if_neg hother]
                exact hm other
  have hfold : leafHashes c codec b (some ptr) addrs = addrs.foldl (fun m addr =>
      (resolveLeafHashForKey codec b (addrKey c addr) ((addrKey c addr).length + 1) 0 ptr).elim m
        (m.insert addr)) .empty := by
    rw [leafHashes]
    congr 1
    funext m addr
    dsimp only
    cases resolveLeafHashForKey codec b (addrKey c addr) ((addrKey c addr).length + 1) 0 ptr with
    | none => rfl
    | some hash => rfl
  rw [hfold]
  exact hstep .empty (fun a => .inl rfl)

theorem get_leafHashes (b : JournalBuilder H) (p : Option (RlpNode H)) (addrs : List Address)
    (addr : Address) : (leafHashes c codec b p addrs).get addr =
      if addr ∈ addrs then leafHashAt codec (p, b) (addrKey c addr) else none := by
  cases p with
  | none => exact (ite_self none).symm
  | some ptr => exact get_leafHashes_some b ptr addrs addr

-- the full journal holds the tries of any state, and the leaves of its accounts
theorem mirrors_journalFull (hlawful : codec.Lawful) (hapart : Apart c A S) (hwithin : Within A S db)
    (hgenuine : Genuine codec.toNodeCodec (.new t.store.nodeDb)) (hstale : NoStale codec db t)
    (hroots : ∀ addr root, t.storageRoots.get addr = some root → addr ∈ A)
    (htidy : TidyRebuild c codec db t) :
    ∃ j roots, buildStateUpdateJournalFull c codec db t = some j ∧
      Mirrors c codec ⟨t.store.nodeDb, j.nodeDeltaCounts, j.newNodeRecords⟩ db roots j.stateRoot ∧
      ∀ addr, LeafHash codec (addrKey c addr) (accountValues c codec db roots addr)
        (j.updatedAccountLeafHashes.get addr) := by
  obtain ⟨x, hx, hrebuilt, hkeys⟩ := rebuilt_steps hlawful hapart hwithin (storageAddrs db)
    (x := ⟨.new t.store.nodeDb, .empty, []⟩) (t := t)
    ⟨.refl hgenuine, fun addr p hp => absurd hp (by simp)⟩
  have hptrs (addr : Address) : (x.ptrAfter.get addr).isSome ↔ addr ∈ storageAddrs db := by
    rw [hkeys]
    simp
  have hright : RightRoots c codec db (rootOf codec t x) := by
    intro addr
    cases hptr : x.ptrAfter.get addr with
    | some p =>
        obtain ⟨e, hlists, hheld⟩ := hrebuilt.reached addr p hptr
        rw [rootOf_some hptr]
        exact ⟨e, hlists, hheld.isRoot⟩
    | none =>
        have hnone : ∀ slot, db.storage.get ⟨addr, slot⟩ = none :=
          noStorage_of_not_mem (by rw [← hptrs, hptr]; exact Bool.false_ne_true)
        have hvalues : storageValues codec db addr = fun _ => none := by
          funext slot
          rw [storageValues, hnone slot]
          rfl
        rw [rootOf_none hptr, hstale addr hnone, hvalues]
        exact ⟨_, lists_none, .empty⟩
  have hlists := lists_rebuildOps (t := t) hlawful hapart hwithin hroots hright
  obtain ⟨r, hr, hgrows, hheld⟩ := held_applyOps hlawful hrebuilt.grows.genuine (n := 64) held_none
    (rebuildOps c codec db t (rootOf codec t x))
    (fun op hop => by
      obtain ⟨addr, -, rfl⟩ := List.mem_map.mp (mem_sortByKey.mp hop)
      exact length_addrKey addr)
    (htidy _ hright)
  have hforced := grows_forceRoot hlawful hgrows.genuine r.1
  have hforcedRoots := grows_forceRoots hlawful hforced.genuine (x.ptrAfter.entries.map Prod.snd)
  have hforce : x.ptrAfter.entries.foldl
      (fun b e => forceRootRecord codec b (ptrToRoot codec.toNodeCodec e.2) e.2)
      (forceRootRecord codec r.2 (ptrToRoot codec.toNodeCodec r.1) r.1) =
      forceRoots codec (forceRootRecord codec r.2 (ptrToRoot codec.toNodeCodec r.1) r.1)
        (x.ptrAfter.entries.map Prod.snd) := by
    rw [forceRoots, List.foldl_map]
  have hops : sortByKey ((fullAccountAddrs db t x).map (fun addr => accountOp c codec addr
      (accountFromState c codec db addr ((x.rootAfter codec addr).getD (storedRoot codec t addr))))) =
      rebuildOps c codec db t (rootOf codec t x) := by
    rw [fullAccountAddrs_eq hptrs]
    rfl
  let b := forceRoots codec (forceRootRecord codec r.2 (ptrToRoot codec.toNodeCodec r.1) r.1)
    (x.ptrAfter.entries.map Prod.snd)
  have hgrown : Grows codec.toNodeCodec r.2 b := hforced.trans hforcedRoots
  have hdb : b.nodeDb = t.store.nodeDb := ((hrebuilt.grows.trans hgrows).trans hgrown).nodeDb
  have hbuilt : buildStateUpdateJournalFull c codec db t = some
      { stateRoot := ptrToRoot codec.toNodeCodec r.1
        storageUpdates := []
        nodeDeltaCounts := b.nodeDeltaCounts
        newNodeRecords := b.newNodeRecords
        updatedAccountLeafHashes := leafHashes c codec b r.1 (rebuiltAddrs db t)
        anchorDelta := .default } := by
    rw [buildStateUpdateJournalFull, hx, Option.bind_eq_bind, Option.bind_some]
    dsimp only
    rw [hops, hr, Option.bind_eq_bind, Option.bind_some, hforce, fullAccountAddrs_eq hptrs]
  refine ⟨_, rootOf codec t x, hbuilt, ⟨fun addr => ?_, _, hlists, ?_⟩, fun addr => ?_⟩
  · dsimp only
    rw [← hdb]
    cases hptr : x.ptrAfter.get addr with
    | some p =>
        obtain ⟨e, hstorage, hp⟩ := hrebuilt.reached addr p hptr
        rw [rootOf_some hptr]
        refine ⟨e, hstorage, stored_forceRoots hlawful hforced.genuine ?_
          (hp.grows (hgrows.trans hforced))⟩
        exact List.mem_map.mpr ⟨(addr, p), OrdMap.mem_entries.mpr hptr, rfl⟩
    | none =>
        have hnone : ∀ slot, db.storage.get ⟨addr, slot⟩ = none :=
          noStorage_of_not_mem (by rw [← hptrs, hptr]; exact Bool.false_ne_true)
        obtain ⟨e, hstorage, hroot⟩ := hright addr
        rw [rootOf_none hptr, hstale addr hnone] at hroot ⊢
        rw [hroot.entries_unique hlawful .empty] at hstorage
        exact ⟨_, hstorage, stored_none hgrown.genuine 64⟩
  · dsimp only
    rw [← hdb]
    exact (stored_forceRoot hlawful hgrows.genuine hheld).grows hforcedRoots
  · dsimp only
    rw [get_leafHashes]
    by_cases haddr : addr ∈ rebuiltAddrs db t
    · have hleaf := leafHash_at (r := (r.1, b)) (hheld.grows hgrown).shown
        (length_addrKey (c := c) addr)
      rw [if_pos haddr]
      rwa [hlists.at hapart.addrs (fun k hk => mem_rebuilt hlawful hwithin hroots hright hk)
        (rebuilt_mem hwithin hroots haddr)] at hleaf
    · rw [if_neg haddr, accountValues, accountFromState_outside hlawful hright haddr]
      exact .absent

end Kasane.Trie
