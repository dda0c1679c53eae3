import Kasane.Trie.Committed

namespace Kasane.Trie

open BigEndian Patricia JournalBuilder Chain Exec Listing

variable {H : Type} [LinearOrder H] {c : Crypto} {codec : StateCodec H} {b b' : JournalBuilder H}
  {n : Nat} {entries : Entries Nibble Bytes}

-- a trie in its form, at a pointer that the records resolve
structure Held (codec : NodeCodec H) (b : JournalBuilder H) (n : Nat) (p : Option (RlpNode H))
    (entries : Entries Nibble Bytes) : Prop where
  shown : Shown codec (Roots codec) b n p entries
  tight : Tight codec (Roots codec) b p

theorem Held.grows {p : Option (RlpNode H)} (h : Held codec.toNodeCodec b n p entries)
    (hgrows : Grows codec.toNodeCodec b b') : Held codec.toNodeCodec b' n p entries :=
  ⟨h.shown.grows view_roots hgrows, (tight_grows_iff view_roots hgrows h.shown).mpr h.tight⟩

theorem held_none : Held codec.toNodeCodec b n none (fun _ => none) := ⟨rfl, trivial⟩

theorem Stored.held {root : H} (h : Stored codec.toNodeCodec b n root entries) :
    Held codec.toNodeCodec b n (rootToPtr codec.toNodeCodec root) entries := ⟨h.shown, h.tight⟩

theorem Stored.grows {root : H} (h : Stored codec.toNodeCodec b n root entries)
    (hgrows : Grows codec.toNodeCodec b b') : Stored codec.toNodeCodec b' n root entries :=
  ⟨hgrows.genuine, (h.held.grows hgrows).shown, (h.held.grows hgrows).tight⟩

theorem Held.isRoot {p : Option (RlpNode H)} (h : Held codec.toNodeCodec b n p entries) :
    IsRoot codec.toNodeCodec n entries (ptrToRoot codec.toNodeCodec p) :=
  isRoot_of_tight h.shown h.tight

theorem held_applyOps (hlawful : codec.Lawful) (h : Genuine codec.toNodeCodec b)
    {p : Option (RlpNode H)} (hp : Held codec.toNodeCodec b n p entries) (ops : List KvOp)
    (hkeys : ∀ op ∈ ops, op.key.length = n) (htidy : TidyOps entries ops) :
    ∃ r, applyOps codec.toNodeCodec (p, b) ops = some r ∧ Grows codec.toNodeCodec b r.2 ∧
      Held codec.toNodeCodec r.2 n r.1 (overwrite entries ops) := by
  obtain ⟨r, hr, hyields⟩ := applyOps_yields hlawful h hp.shown hkeys
  exact ⟨r, hr, hyields.grows, hyields.shown,
    applyOps_tight hlawful h hp.shown hp.tight hkeys htidy hr⟩

theorem mem_sortByKey {ops : List KvOp} {op : KvOp} : op ∈ sortByKey ops ↔ op ∈ ops :=
  (List.mergeSort_perm ops _).mem_iff

-- the addresses and the slots whose hashes are told apart
structure Apart (c : Crypto) (A : Set Address) (S : Set Nat) : Prop where
  addrs : Set.InjOn (addrKey c) A
  slots : Set.InjOn (slotKey c) S

structure Within (A : Set Address) (S : Set Nat) (db : RevmStableDb) : Prop where
  accounts : ∀ addr val, db.accounts.get addr = some val → addr ∈ A
  storage : ∀ key val, db.storage.get key = some val → key.address ∈ A ∧ key.slot ∈ S

variable {A : Set Address} {S : Set Nat} {db db' : RevmStableDb}

def slotWrites (db : RevmStableDb) (addr : Address) : List (Nat × Option Nat) :=
  (db.storage.entries.filter (fun e => decide (e.1.address = addr))).map
    (fun e => (e.1.slot, some e.2))

theorem mem_slotWrites {addr : Address} {slot : Nat} {v : Option Nat} :
    (slot, v) ∈ slotWrites db addr ↔ ∃ value, v = some value ∧
      db.storage.get ⟨addr, slot⟩ = some value := by
  rw [slotWrites, List.mem_map]
  constructor
  · rintro ⟨⟨⟨a, s⟩, value⟩, he, heq⟩
    obtain ⟨hmem, haddr⟩ := List.mem_filter.mp he
    obtain rfl : a = addr := of_decide_eq_true haddr
    obtain ⟨rfl, rfl⟩ := Prod.mk.inj heq
    exact ⟨value, rfl, OrdMap.mem_entries.mp hmem⟩
  · rintro ⟨value, rfl, hget⟩
    refine ⟨(⟨addr, slot⟩, value), List.mem_filter.mpr ⟨OrdMap.mem_entries.mpr hget, ?_⟩, rfl⟩
    exact decide_eq_true rfl

theorem nodup_slotWrites (db : RevmStableDb) (addr : Address) :
    ((slotWrites db addr).map Prod.fst).Nodup := by
  rw [slotWrites, List.map_map]
  refine (db.storage.entries_nodup.filter _).map_on (fun e he e' he' heq => ?_)
  obtain ⟨hmem, haddr⟩ := List.mem_filter.mp he
  obtain ⟨hmem', haddr'⟩ := List.mem_filter.mp he'
  have hkey : e.1 = e'.1 := by
    have ha := (of_decide_eq_true haddr).trans (of_decide_eq_true haddr').symm
    calc e.1 = ⟨e.1.address, e.1.slot⟩ := rfl
      _ = ⟨e'.1.address, e'.1.slot⟩ := congrArg₂ StorageKey.mk ha heq
  have hvalue := (OrdMap.mem_entries.mp hmem).symm.trans (hkey ▸ OrdMap.mem_entries.mp hmem')
  exact Prod.ext hkey (Option.some.inj hvalue)

theorem collect_eq (db : RevmStableDb) (addr : Address) :
    collectStorageOpsFromState c codec db addr = sortByKey (((slotWrites db addr).map
      (fun x => (x.1, x.2.map codec.encodeU256))).map (fun x => ⟨slotKey c x.1, x.2⟩)) := by
  rw [collectStorageOpsFromState, slotWrites, List.map_map, List.map_map]
  rfl

-- the trie built from nothing holds the whole storage of the address
theorem held_rebuilt (codec : StateCodec H) (hlawful : codec.Lawful) (hapart : Apart c A S) (hwithin : Within A S db)
    (h : Genuine codec.toNodeCodec b) (addr : Address) :
    ∃ r, applyOps codec.toNodeCodec (none, b) (collectStorageOpsFromState c codec db addr) = some r ∧
      Grows codec.toNodeCodec b r.2 ∧ ∃ e, Lists (slotKey c) (storageValues codec db addr) e ∧
        Held codec.toNodeCodec r.2 64 r.1 e := by
  have hops : ∀ op ∈ collectStorageOpsFromState c codec db addr,
      op.key.length = 64 ∧ op.value ≠ none := by
    intro op hop
    rw [collect_eq, mem_sortByKey, List.map_map, List.mem_map] at hop
    obtain ⟨x, hx, rfl⟩ := hop
    obtain ⟨value, hvalue, -⟩ := mem_slotWrites.mp hx
    refine ⟨length_slotKey x.1, ?_⟩
    change x.2.map codec.encodeU256 ≠ none
    rw [hvalue]
    exact Option.some_ne_none _
  obtain ⟨r, hr, hgrows, hheld⟩ := held_applyOps hlawful h (n := 64) held_none _
    (fun op hop => (hops op hop).1) (tidyOps_of_writes (fun op hop => (hops op hop).2) _)
  refine ⟨r, hr, hgrows, _, ?_, hheld⟩
  have hlists := lists_overwrite hapart.slots (f := fun _ => none) (fun _ hk => absurd rfl hk)
    lists_none ((slotWrites db addr).map (fun x => (x.1, x.2.map codec.encodeU256)))
    (fun x hx => by
      obtain ⟨y, hy, rfl⟩ := List.mem_map.mp hx
      obtain ⟨value, -, hget⟩ := mem_slotWrites.mp hy
      exact (hwithin.storage _ _ hget).2)
    (by
      rw [List.map_map]
      exact nodup_slotWrites db addr)
  rw [← collect_eq] at hlists
  have hsame : writes (fun _ => none) ((slotWrites db addr).map
      (fun x => (x.1, x.2.map codec.encodeU256))) = storageValues codec db addr := by
    funext slot
    have hnodup : (((slotWrites db addr).map
        (fun x => (x.1, x.2.map codec.encodeU256))).map Prod.fst).Nodup := by
      rw [List.map_map]
      exact nodup_slotWrites db addr
    rw [storageValues]
    cases hget : db.storage.get ⟨addr, slot⟩ with
    | some value =>
        refine writes_of_mem hnodup (List.mem_map.mpr ⟨(slot, some value), ?_, rfl⟩) _
        exact mem_slotWrites.mpr ⟨value, rfl, hget⟩
    | none =>
        refine writes_of_not_mem (fun hmem => ?_) _
        rw [List.map_map] at hmem
        obtain ⟨x, hx, rfl⟩ := List.mem_map.mp hmem
        obtain ⟨value, -, hvalue⟩ := mem_slotWrites.mp hx
        exact absurd (hget.symm.trans hvalue) (by simp)
  rwa [hsame] at hlists

-- the tries of the storage and of the accounts before the journal, and the changes it makes
structure Settled (c : Crypto) (codec : StateCodec H) (A : Set Address) (S : Set Nat)
    (db db' : RevmStableDb) (t : TrieState H) (delta : TrieDelta) : Prop where
  apart : Apart c A S
  within : Within A S db
  deltaAddrs : ∀ addr d, delta.get addr = some d → addr ∈ A ∧
    ∀ slot v, d.storage.get slot = some v → slot ∈ S
  tells : ∀ addr, Tells db db' addr (delta.get addr)
  mirrors : Mirrors c codec (.new t.store.nodeDb) db (storedRoot codec t) t.stateRoot
  tidy : ∀ addr d e, delta.get addr = some d → d.deleted = false →
    Lists (slotKey c) (storageValues codec db addr) e →
      TidyOps e (sortByKey (d.storage.entries.map (storageOp c codec)))

variable {t : TrieState H} {delta : TrieDelta} {touchedAddrs : List Address}

theorem storageValues_of_same {addr : Address}
    (h : ∀ slot, db'.storage.get ⟨addr, slot⟩ = db.storage.get ⟨addr, slot⟩) :
    storageValues codec db' addr = storageValues codec db addr := by
  funext slot
  rw [storageValues, h slot, storageValues]

theorem held_changed (hlawful : codec.Lawful) (hs : Settled c codec A S db db' t delta)
    (h : Genuine codec.toNodeCodec b) {addr : Address} {d : AccountDelta}
    (hget : delta.get addr = some d) (hlive : d.deleted = false) {p : Option (RlpNode H)}
    {e : Entries Nibble Bytes} (hlists : Lists (slotKey c) (storageValues codec db addr) e)
    (hp : Held codec.toNodeCodec b 64 p e) :
    ∃ r, applyOps codec.toNodeCodec (p, b)
        (sortByKey (d.storage.entries.map (storageOp c codec))) = some r ∧
      Grows codec.toNodeCodec b r.2 ∧ ∃ e', Lists (slotKey c) (storageValues codec db' addr) e' ∧
        Held codec.toNodeCodec r.2 64 r.1 e' := by
  have hkeys : ∀ op ∈ sortByKey (d.storage.entries.map (storageOp c codec)),
      op.key.length = 64 := by
    intro op hop
    obtain ⟨x, -, rfl⟩ := List.mem_map.mp (mem_sortByKey.mp hop)
    exact length_slotKey x.1
  obtain ⟨r, hr, hgrows, hheld⟩ :=
    held_applyOps hlawful h hp _ hkeys (hs.tidy addr d e hget hlive hlists)
  refine ⟨r, hr, hgrows, _, ?_, hheld⟩
  have hnodup : ((d.storage.entries.map
      (fun x => (x.1, x.2.map codec.encodeU256))).map Prod.fst).Nodup := by
    rw [List.map_map]
    exact d.storage.keys_nodup
  have hwrites := lists_overwrite hs.apart.slots
    (fun slot hslot => by
      rw [storageValues] at hslot
      cases hvalue : db.storage.get ⟨addr, slot⟩ with
      | none => exact absurd (by rw [hvalue]; rfl) hslot
      | some value => exact (hs.within.storage _ _ hvalue).2)
    hlists (d.storage.entries.map (fun x => (x.1, x.2.map codec.encodeU256)))
    (fun x hx => by
      obtain ⟨y, hy, rfl⟩ := List.mem_map.mp hx
      exact (hs.deltaAddrs addr d hget).2 y.1 y.2 (OrdMap.mem_entries.mp hy))
    hnodup
  rw [List.map_map] at hwrites
  have hsame : writes (storageValues codec db addr)
      (d.storage.entries.map (fun x => (x.1, x.2.map codec.encodeU256))) =
      storageValues codec db' addr := by
    have htells := hs.tells addr
    rw [hget] at htells
    funext slot
    rw [storageValues, (htells.2 hlive).2 slot]
    cases hslot : d.storage.get slot with
    | some v =>
        exact writes_of_mem hnodup
          (List.mem_map.mpr ⟨(slot, v), OrdMap.mem_entries.mpr hslot, rfl⟩) _
    | none =>
        refine writes_of_not_mem (fun hmem => ?_) _
        rw [List.map_map] at hmem
        obtain ⟨x, hx, rfl⟩ := List.mem_map.mp hmem
        exact absurd (hslot.symm.trans (OrdMap.mem_entries.mp hx)) (by simp)
  rwa [hsame] at hwrites

theorem held_newStoragePtr (touchedAddrs : List Address) (hlawful : codec.Lawful) (hs : Settled c codec A S db db' t delta)
    (hgrows : Grows codec.toNodeCodec (.new t.store.nodeDb) b) (addr : Address) :
    ∃ r, newStoragePtr c codec db t delta touchedAddrs b addr = some r ∧
      Grows codec.toNodeCodec b r.2 ∧ ∃ e, Lists (slotKey c) (storageValues codec db' addr) e ∧
        Held codec.toNodeCodec r.2 64 r.1 e := by
  obtain ⟨e, hlists, hstored⟩ := hs.mirrors.storage addr
  have hold := (hstored.held.grows hgrows)
  have htells := hs.tells addr
  have hrebuilt (hsame : storageValues codec db' addr = storageValues codec db addr) :
      ∃ r, (if addr ∈ touchedAddrs then
          applyOps codec.toNodeCodec (none, b) (collectStorageOpsFromState c codec db addr)
        else some (rootToPtr codec.toNodeCodec (storedRoot codec t addr), b)) = some r ∧
        Grows codec.toNodeCodec b r.2 ∧ ∃ e, Lists (slotKey c) (storageValues codec db' addr) e ∧
          Held codec.toNodeCodec r.2 64 r.1 e := by
    rw [hsame]
    split_ifs
    · exact held_rebuilt _ hlawful hs.apart hs.within hgrows.genuine addr
    · exact ⟨_, rfl, .refl hgrows.genuine, e, hlists, hold⟩
  rw [newStoragePtr]
  cases hget : delta.get addr with
  | none =>
      rw [hget] at htells
      exact hrebuilt (storageValues_of_same htells.2)
  | some d =>
      rw [hget] at htells
      dsimp only
      cases hd : d.deleted with
      | true =>
          rw [if_pos rfl]
          refine ⟨_, rfl, .refl hgrows.genuine, fun _ => none, ?_, held_none⟩
          have hempty : storageValues codec db' addr = fun _ => none := by
            funext slot
            rw [storageValues, (htells.1 hd).2 slot]
            rfl
          rw [hempty]
          exact lists_none
      | false =>
          rw [if_neg Bool.false_ne_true]
          by_cases hempty : d.storage.entries = []
          · rw [if_pos hempty]
            refine hrebuilt (storageValues_of_same (fun slot => ?_))
            have hnone : d.storage.get slot = none := by
              rw [OrdMap.get, hempty]
              rfl
            rw [(htells.2 hd).2 slot, hnone]
            rfl
          · rw [if_neg hempty]
            exact held_changed hlawful hs hgrows.genuine hget hd hlists hold

def updateOf (codec : StateCodec H) (addr : Address) (p : Option (RlpNode H)) :
    StorageRootUpdate H :=
  ⟨addr, if ptrToRoot codec.toNodeCodec p = emptyRoot codec then none
    else some (ptrToRoot codec.toNodeCodec p)⟩

-- what the pass knows of the addresses it is through with
structure Passed (c : Crypto) (codec : StateCodec H) (db' : RevmStableDb) (t : TrieState H)
    (x : StoragePass H) : Prop where
  grows : Grows codec.toNodeCodec (.new t.store.nodeDb) x.builder
  reached : ∀ addr p, x.ptrAfter.get addr = some p →
    ∃ e, Lists (slotKey c) (storageValues codec db' addr) e ∧ Held codec.toNodeCodec x.builder 64 p e
  updates : ∀ u, u ∈ x.updates ↔ ∃ p, x.ptrAfter.get u.addr = some p ∧ u = updateOf codec u.addr p ∧
    ptrToRoot codec.toNodeCodec p ≠ storedRoot codec t u.addr

theorem passed_new (h : Genuine codec.toNodeCodec (.new t.store.nodeDb)) :
    Passed c codec db' t ⟨.new t.store.nodeDb, .empty, []⟩ where
  grows := .refl h
  reached := fun addr p hp => absurd hp (by simp)
  updates := fun u => by simp

theorem mem_appendIf {α : Type} (p : Prop) [Decidable p] (l : List α) (a b : α) :
    b ∈ (if p then l else l ++ [a]) ↔ b ∈ l ∨ (¬ p ∧ b = a) := by
  by_cases hp : p
  · simp [hp]
  · simp [hp]

theorem passed_storageStep (touchedAddrs : List Address) (hlawful : codec.Lawful) (hs : Settled c codec A S db db' t delta)
    {x : StoragePass H} (h : Passed c codec db' t x) {addr : Address}
    (hfresh : x.ptrAfter.get addr = none) :
    ∃ p x', storageStep c codec db t delta touchedAddrs x addr = some x' ∧
      x'.ptrAfter = x.ptrAfter.insert addr p ∧ Passed c codec db' t x' := by
  obtain ⟨r, hr, hgrows, e, hlists, hheld⟩ :=
    held_newStoragePtr touchedAddrs hlawful hs h.grows addr
  refine ⟨r.1, _, by rw [storageStep, hr]; rfl, rfl, h.grows.trans hgrows, ?_, ?_⟩
  · intro other p hp
    rw [OrdMap.get_insert] at hp
    split_ifs at hp with hsame
    · obtain rfl := Option.some.inj hp
      rw [hsame]
      exact ⟨e, hlists, hheld⟩
    · obtain ⟨e', hlists', hheld'⟩ := h.reached other p hp
      exact ⟨e', hlists', hheld'.grows hgrows⟩
  · intro u
    refine (mem_appendIf ..).trans ?_
    by_cases haddr : u.addr = addr
    · have hnot : u ∉ x.updates := by
        intro hu
        obtain ⟨p, hp, -⟩ := (h.updates u).mp hu
        rw [haddr, hfresh] at hp
        cases hp
      rw [OrdMap.get_insert, if_pos haddr, haddr]
      constructor
      · intro hu
        obtain ⟨hroot, heq⟩ := hu.resolve_left hnot
        exact ⟨r.1, rfl, heq, hroot⟩
      · rintro ⟨p, hp, heq, hroot⟩
        obtain rfl := Option.some.inj hp
        exact .inr ⟨hroot, heq⟩
    · rw [h.updates u, OrdMap.get_insert, if_neg haddr]
      refine ⟨fun hu => hu.resolve_right (fun hnew => haddr ?_), .inl⟩
      rw [hnew.2]

theorem passed_storageSteps (touchedAddrs : List Address) (hlawful : codec.Lawful)
    (hs : Settled c codec A S db db' t delta)
    (addrs : List Address) (hnodup : addrs.Nodup) {x : StoragePass H} (h : Passed c codec db' t x)
    (hfresh : ∀ addr ∈ addrs, x.ptrAfter.get addr = none) :
    ∃ x', addrs.foldlM (storageStep c codec db t delta touchedAddrs) x = some x' ∧
      Passed c codec db' t x' ∧ ∀ addr, (x'.ptrAfter.get addr).isSome ↔
        addr ∈ addrs ∨ (x.ptrAfter.get addr).isSome := by
  induction addrs generalizing x with
  | nil => exact ⟨x, rfl, h, fun addr => by simp⟩
  | cons addr addrs ih =>
      obtain ⟨hnot, hrest⟩ := List.nodup_cons.mp hnodup
      obtain ⟨p, x₁, hstep, hptr, hpassed⟩ := passed_storageStep touchedAddrs
        hlawful hs h (hfresh addr List.mem_cons_self)
      obtain ⟨x', hfold, hpassed', hkeys⟩ := ih hrest hpassed (fun other hother => by
        have hne : other ≠ addr := fun heq => hnot (by rwa [← heq])
        rw [hptr, OrdMap.get_insert, if_neg hne]
        exact hfresh other (List.mem_cons_of_mem _ hother))
      refine ⟨x', ?_, hpassed', fun other => ?_⟩
      · rw [List.foldlM_cons, hstep]
        exact hfold
      · rw [hkeys, hptr, OrdMap.get_insert, List.mem_cons]
        by_cases hother : other = addr
        · simp [hother]
        · simp [hother]

theorem passed_storagePass (touchedAddrs : List Address) (hlawful : codec.Lawful) (hs : Settled c codec A S db db' t delta)
    (h : Genuine codec.toNodeCodec (.new t.store.nodeDb)) :
    ∃ x, storagePass c codec db t delta touchedAddrs = some x ∧ Passed c codec db' t x ∧
      ∀ addr, (x.ptrAfter.get addr).isSome ↔ addr ∈ targetStorageAddrs delta touchedAddrs := by
  obtain ⟨x, hx, hpassed, hkeys⟩ := passed_storageSteps touchedAddrs hlawful hs
    (targetStorageAddrs delta touchedAddrs) (OrdMap.keys_nodup _) (passed_new h)
    (fun _ _ => rfl)
  refine ⟨x, hx, hpassed, fun addr => ?_⟩
  rw [hkeys]
  simp

theorem keep_of_fresh {hash : H} (raw : Bytes) (h : b.newNodeRecords.get hash = none) :
    b.keep hash raw = { b with newNodeRecords := b.newNodeRecords.insert hash raw } := by
  rw [JournalBuilder.keep, OrdMap.orInsert, h]

theorem grows_forceRoot (hlawful : codec.Lawful) (h : Genuine codec.toNodeCodec b)
    (p : Option (RlpNode H)) : Grows codec.toNodeCodec b
      (forceRootRecord codec b (ptrToRoot codec.toNodeCodec p) p) := by
  unfold forceRootRecord
  split_ifs
  · exact .refl h
  · cases hnew : b.newNodeRecords.get (ptrToRoot codec.toNodeCodec p) with
    | some kept => exact .refl h
    | none =>
        cases hdb : b.nodeDb.get (ptrToRoot codec.toNodeCodec p) with
        | some record =>
            have hgrows := grows_keep hlawful h (h.db _ record hdb)
            rwa [keep_of_fresh record.rlp hnew] at hgrows
        | none =>
            cases p with
            | none => exact .refl h
            | some ptr =>
                cases ptr with
                | word hash => exact .refl h
                | inline raw =>
                    have hgrows : Grows codec.toNodeCodec b (b.keep (codec.hash raw) raw) :=
                      grows_keep hlawful h rfl
                    have hfresh : b.newNodeRecords.get (codec.hash raw) = none := hnew
                    rwa [keep_of_fresh raw hfresh] at hgrows

theorem record_forceRoot (hlawful : codec.Lawful) (h : Genuine codec.toNodeCodec b) {raw : Bytes}
    (hne : codec.hash raw ≠ emptyRoot codec) :
    (forceRootRecord codec b (codec.hash raw) (some (.inline raw))).record (codec.hash raw) =
      some raw := by
  rw [forceRootRecord, if_neg hne]
  cases hnew : b.newNodeRecords.get (codec.hash raw) with
  | some kept =>
      have hrecord : b.record (codec.hash raw) = some kept := by
        rw [JournalBuilder.record, hnew]
      rw [hrecord, hlawful.hash_injective (h.record hrecord)]
  | none =>
      cases hdb : b.nodeDb.get (codec.hash raw) with
      | some record =>
          have hrecord := record_keep hlawful h (h.db _ record hdb)
          rw [keep_of_fresh record.rlp hnew] at hrecord
          exact hrecord.trans (congrArg some (hlawful.hash_injective (h.db _ record hdb)))
      | none =>
          have hrecord : (b.keep (codec.hash raw) raw).record (codec.hash raw) = some raw :=
            record_keep hlawful h rfl
          rwa [keep_of_fresh raw hnew] at hrecord

-- a root whose node is short has no record of its own until it is forced
theorem stored_forceRoot (hlawful : codec.Lawful) (h : Genuine codec.toNodeCodec b)
    {p : Option (RlpNode H)} (hp : Held codec.toNodeCodec b n p entries) :
    Stored codec.toNodeCodec (forceRootRecord codec b (ptrToRoot codec.toNodeCodec p) p) n
      (ptrToRoot codec.toNodeCodec p) entries := by
  have hgrows := grows_forceRoot hlawful h p
  have hheld := hp.grows hgrows
  cases p with
  | none =>
      exact stored_ptr hlawful hgrows.genuine hheld.shown hheld.tight (fun _ h => absurd h (by simp))
  | some ptr =>
      cases ptr with
      | word hash =>
          refine stored_ptr hlawful hgrows.genuine hheld.shown hheld.tight (fun ptr hptr => ?_)
          exact ⟨hash, (Option.some.inj hptr).symm⟩
      | inline raw =>
          obtain ⟨node, hroots, hspells⟩ := hheld.shown
          have hhash : codec.hash raw = codec.hash (codec.encode (.ofPath node)) := hroots.hash
          have hne : codec.hash raw ≠ emptyRoot codec := hhash ▸ hash_ne_empty hlawful hroots.sound
          have hptr : rootToPtr codec.toNodeCodec (ptrToRoot codec.toNodeCodec (some (.inline raw))) =
              some (.word (codec.hash raw)) := if_neg hne
          have hword : Roots codec.toNodeCodec
              (forceRootRecord codec b (codec.hash raw) (some (.inline raw)))
              (.word (codec.hash raw)) node := by
            refine ⟨?_, hroots.sound, hhash⟩
            rw [JournalBuilder.resolvePtr, record_forceRoot hlawful h hne]
            exact hroots.resolved
          refine ⟨hgrows.genuine, ?_, ?_⟩
          · rw [hptr]
            exact .of_node hword hspells
          · rw [hptr]
            exact .of_node hword (hheld.tight.node view_roots hroots)

def forceRoots (codec : StateCodec H) (b : JournalBuilder H) (ptrs : List (Option (RlpNode H))) :
    JournalBuilder H :=
  ptrs.foldl (fun b p => forceRootRecord codec b (ptrToRoot codec.toNodeCodec p) p) b

theorem grows_forceRoots (hlawful : codec.Lawful) (h : Genuine codec.toNodeCodec b)
    (ptrs : List (Option (RlpNode H))) :
    Grows codec.toNodeCodec b (forceRoots codec b ptrs) := by
  induction ptrs generalizing b with
  | nil => exact .refl h
  | cons p ptrs ih =>
      have hgrows := grows_forceRoot hlawful h p
      exact hgrows.trans (ih hgrows.genuine)

theorem stored_forceRoots (hlawful : codec.Lawful) (h : Genuine codec.toNodeCodec b)
    {ptrs : List (Option (RlpNode H))} {p : Option (RlpNode H)} (hmem : p ∈ ptrs)
    (hp : Held codec.toNodeCodec b n p entries) :
    Stored codec.toNodeCodec (forceRoots codec b ptrs) n (ptrToRoot codec.toNodeCodec p) entries := by
  induction ptrs generalizing b with
  | nil => exact absurd hmem List.not_mem_nil
  | cons q ptrs ih =>
      have hgrows := grows_forceRoot hlawful h q
      rcases List.mem_cons.mp hmem with rfl | hmem
      · exact (stored_forceRoot hlawful h hp).grows (grows_forceRoots hlawful hgrows.genuine ptrs)
      · exact ih hgrows.genuine hmem (hp.grows hgrows)

end Kasane.Trie
