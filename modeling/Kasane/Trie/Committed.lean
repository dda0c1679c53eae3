import Kasane.Exec.Fees
import Kasane.Lib.Listing
import Kasane.Trie.Journal

namespace Kasane.Trie

open BigEndian Chain Exec

variable {c : Crypto}

def Deleted (c : Crypto) (account : Account) : Bool :=
  account.selfdestructed || (account.info.isEmpty c && account.touched)

def changedSlot (storage : OrdMap Nat EvmStorageSlot) (slot : Nat) : Option (Option Nat) :=
  (storage.get slot).bind (fun e =>
    if e.originalValue = e.presentValue then none
    else some (if e.presentValue = 0 then none else some e.presentValue))

theorem get_mergeSlots (storage : OrdMap Nat EvmStorageSlot) (old : OrdMap Nat (Option Nat))
    (slot : Nat) : (storage.entries.foldl mergeSlot old).get slot =
      (changedSlot storage slot).or (old.get slot) := by
  have hfold := OrdMap.get_foldl_keyed OrdMap.get mergeSlot
    (fun (was : Option (Option Nat)) (e : EvmStorageSlot) =>
      if e.originalValue = e.presentValue then was
      else some (if e.presentValue = 0 then none else some e.presentValue))
    (fun s e => by
      rw [mergeSlot]
      split_ifs
      · rfl
      · exact (OrdMap.get_insert ..).trans (if_pos rfl)
      · exact (OrdMap.get_insert ..).trans (if_pos rfl))
    (fun s e k hk => by
      rw [mergeSlot]
      split_ifs
      · rfl
      · exact (OrdMap.get_insert ..).trans (if_neg hk)
      · exact (OrdMap.get_insert ..).trans (if_neg hk))
    storage.keys_nodup old slot
  have hget : OrdMap.lookupIn slot storage.entries = storage.get slot := rfl
  rw [hfold, hget, changedSlot]
  cases storage.get slot with
  | none => rfl
  | some e =>
      rw [Option.elim_some, Option.bind_some]
      by_cases hsame : e.originalValue = e.presentValue
      · rw [if_pos hsame, if_pos hsame]
        rfl
      · rw [if_neg hsame, if_neg hsame]
        rfl

theorem get_commitSlots (addr : Address) (storage : OrdMap Nat EvmStorageSlot)
    (old : OrdMap StorageKey Nat) (slot : Nat) :
    (storage.entries.foldl (RevmStableDb.commitSlot addr) old).get ⟨addr, slot⟩ =
      (changedSlot storage slot).getD (old.get ⟨addr, slot⟩) := by
  have hfold := OrdMap.get_foldl_keyed
    (fun (m : OrdMap StorageKey Nat) (slot : Nat) => m.get ⟨addr, slot⟩)
    (RevmStableDb.commitSlot addr)
    (fun (was : Option Nat) (e : EvmStorageSlot) =>
      if e.originalValue = e.presentValue then was
      else if e.presentValue = 0 then none else some e.presentValue)
    (fun s e => by
      rw [RevmStableDb.commitSlot]
      split_ifs
      · rfl
      · exact (OrdMap.get_remove ..).trans (if_pos rfl)
      · exact (OrdMap.get_insert ..).trans (if_pos rfl))
    (fun s e k hk => by
      have hne : (⟨addr, k⟩ : StorageKey) ≠ ⟨addr, e.1⟩ := fun h => hk (StorageKey.mk.inj h).2
      rw [RevmStableDb.commitSlot]
      split_ifs
      · rfl
      · exact (OrdMap.get_remove ..).trans (if_neg hne)
      · exact (OrdMap.get_insert ..).trans (if_neg hne))
    storage.keys_nodup old slot
  have hget : OrdMap.lookupIn slot storage.entries = storage.get slot := rfl
  rw [hfold, hget, changedSlot]
  cases storage.get slot with
  | none => rfl
  | some e =>
      rw [Option.elim_some, Option.bind_some]
      by_cases hsame : e.originalValue = e.presentValue
      · rw [if_pos hsame, if_pos hsame]
        rfl
      · rw [if_neg hsame, if_neg hsame]
        rfl

theorem get_commitSlots_of_ne {addr other : Address} (h : other ≠ addr)
    (es : List (Nat × EvmStorageSlot)) (old : OrdMap StorageKey Nat) (slot : Nat) :
    (es.foldl (RevmStableDb.commitSlot addr) old).get ⟨other, slot⟩ = old.get ⟨other, slot⟩ := by
  have hne (k : Nat) : (⟨other, slot⟩ : StorageKey) ≠ ⟨addr, k⟩ := fun heq => h (StorageKey.mk.inj heq).1
  induction es generalizing old with
  | nil => rfl
  | cons e es ih =>
      rw [List.foldl_cons, ih, RevmStableDb.commitSlot]
      split_ifs
      · rfl
      · exact (OrdMap.get_remove ..).trans (if_neg (hne e.1))
      · exact (OrdMap.get_insert ..).trans (if_neg (hne e.1))

theorem get_foldl_remove (keys : List StorageKey) (m : OrdMap StorageKey Nat) (k : StorageKey) :
    (keys.foldl OrdMap.remove m).get k = if k ∈ keys then none else m.get k := by
  induction keys generalizing m with
  | nil => simp
  | cons j keys ih =>
      rw [List.foldl_cons, ih, OrdMap.get_remove]
      by_cases hk : k = j
      · simp [hk]
      · simp [hk]

theorem get_selfdestruct (db : RevmStableDb) (addr : Address) (k : StorageKey) :
    (db.selfdestructAddress addr).storage.get k =
      if k.address = addr then none else db.storage.get k := by
  change ((db.storage.keys.filter _).foldl OrdMap.remove db.storage).get k = _
  have hmem : k ∈ db.storage.keys.filter (fun j => decide (j.address = addr)) ↔
      (∃ v, db.storage.get k = some v) ∧ k.address = addr := by
    rw [List.mem_filter, OrdMap.mem_keys, decide_eq_true_iff]
  rw [get_foldl_remove]
  by_cases hk : k.address = addr
  · rw [if_pos hk]
    cases hget : db.storage.get k with
    | none => exact ite_self none
    | some v => exact if_pos (hmem.mpr ⟨⟨v, hget⟩, hk⟩)
  · rw [if_neg hk]
    exact if_neg (fun h => hk (hmem.mp h).2)

-- what a delta says of an account and of its storage, over those of the state before
def Tells (db db' : RevmStableDb) (addr : Address) : Option AccountDelta → Prop
  | none => db'.accounts.get addr = db.accounts.get addr ∧
      ∀ slot, db'.storage.get ⟨addr, slot⟩ = db.storage.get ⟨addr, slot⟩
  | some d =>
      (d.deleted = true → db'.accounts.get addr = none ∧
        ∀ slot, db'.storage.get ⟨addr, slot⟩ = none) ∧
      (d.deleted = false → db'.accounts.get addr = some ⟨d.nonce, d.balance, d.codeHash⟩ ∧
        ∀ slot, db'.storage.get ⟨addr, slot⟩ =
          (d.storage.get slot).getD (db.storage.get ⟨addr, slot⟩))

-- a deleted account stays deleted in the diffs that follow
def NoRevival (c : Crypto) (es : List (Address × Account)) : Prop :=
  es.Pairwise (fun e e' => e'.1 = e.1 → Deleted c e.2 = true → Deleted c e'.2 = true)

theorem deleted_merge (delta : TrieDelta) (e : Address × Account) {d : AccountDelta}
    (h : (mergeAccount c delta e).get e.1 = some d) : d.deleted = Deleted c e.2 := by
  rw [mergeAccount, OrdMap.get_insert, if_pos rfl] at h
  obtain rfl := Option.some.inj h
  rfl

theorem tells_merge {db db' : RevmStableDb} {delta : TrieDelta} {e : Address × Account}
    (h : ∀ addr, Tells db db' addr (delta.get addr))
    (hkept : ∀ d, delta.get e.1 = some d → d.deleted = true → Deleted c e.2 = true)
    (addr : Address) :
    Tells db (db'.commitAccount c e) addr ((mergeAccount c delta e).get addr) := by
  rw [mergeAccount, OrdMap.get_insert]
  have haccounts := db'.get_commitAccount_of_ne (c := c) e addr
  by_cases haddr : addr = e.1
  · subst haddr
    rw [if_pos rfl]
    have hself := db'.get_commitAccount_self (c := c) e
    rw [RevmStableDb.accountAfter] at hself
    by_cases hdeleted : Deleted c e.2 = true
    · have hcommit : db'.commitAccount c e = db'.selfdestructAddress e.1 := if_pos hdeleted
      refine ⟨fun _ => ⟨hself.trans (if_pos hdeleted), fun slot => ?_⟩, fun hfalse => ?_⟩
      · rw [hcommit, get_selfdestruct]
        exact if_pos rfl
      · exact absurd (hdeleted.symm.trans hfalse) (by decide)
    · refine ⟨fun htrue => absurd htrue hdeleted, fun _ => ⟨hself.trans (if_neg hdeleted), fun slot => ?_⟩⟩
      have hcommit : (db'.commitAccount c e).storage =
          e.2.storage.entries.foldl (RevmStableDb.commitSlot e.1) db'.storage :=
        congrArg RevmStableDb.storage (if_neg hdeleted)
      have hbefore := h e.1
      rw [hcommit, get_commitSlots, get_mergeSlots]
      cases hget : delta.get e.1 with
      | none =>
          rw [hget] at hbefore
          rw [hbefore.2 slot]
          cases changedSlot e.2.storage slot <;> rfl
      | some d =>
          rw [hget] at hbefore
          have hlive : d.deleted = false := by
            cases hd : d.deleted with
            | false => rfl
            | true => exact absurd (hkept d hget hd) hdeleted
          rw [(hbefore.2 hlive).2 slot]
          cases changedSlot e.2.storage slot <;> rfl
  · rw [if_neg haddr]
    have hstorage (slot : Nat) :
        (db'.commitAccount c e).storage.get ⟨addr, slot⟩ = db'.storage.get ⟨addr, slot⟩ := by
      rw [RevmStableDb.commitAccount]
      split_ifs
      · rw [get_selfdestruct]
        exact if_neg haddr
      · exact get_commitSlots_of_ne haddr _ _ slot
    have hbefore := h addr
    cases hget : delta.get addr with
    | none =>
        rw [hget] at hbefore
        exact ⟨(haccounts haddr).trans hbefore.1, fun slot => (hstorage slot).trans (hbefore.2 slot)⟩
    | some d =>
        rw [hget] at hbefore
        refine ⟨fun hd => ?_, fun hd => ?_⟩
        · exact ⟨(haccounts haddr).trans (hbefore.1 hd).1,
            fun slot => (hstorage slot).trans ((hbefore.1 hd).2 slot)⟩
        · exact ⟨(haccounts haddr).trans (hbefore.2 hd).1,
            fun slot => (hstorage slot).trans ((hbefore.2 hd).2 slot)⟩

theorem tells_foldl {db : RevmStableDb} (es : List (Address × Account)) {db' : RevmStableDb}
    {delta : TrieDelta} (h : ∀ addr, Tells db db' addr (delta.get addr))
    (hkept : ∀ e ∈ es, ∀ d, delta.get e.1 = some d → d.deleted = true → Deleted c e.2 = true)
    (hes : NoRevival c es) (addr : Address) :
    Tells db (es.foldl (RevmStableDb.commitAccount c) db') addr
      ((es.foldl (mergeAccount c) delta).get addr) := by
  induction es generalizing db' delta with
  | nil => exact h addr
  | cons e es ih =>
      obtain ⟨hfirst, hrest⟩ := List.pairwise_cons.mp hes
      refine ih (tells_merge h (hkept e List.mem_cons_self)) (fun e' he' d hget hd => ?_) hrest
      by_cases hsame : e'.1 = e.1
      · rw [hsame] at hget
        exact hfirst e' he' hsame ((deleted_merge delta e hget).symm.trans hd)
      · rw [mergeAccount, OrdMap.get_insert, if_neg hsame] at hget
        exact hkept e' (List.mem_cons_of_mem _ he') d hget hd

def commitAll (c : Crypto) (db : RevmStableDb) (stateDiffs : List StateDiff) : RevmStableDb :=
  stateDiffs.foldl (RevmStableDb.commit c) db

def diffEntries (stateDiffs : List StateDiff) : List (Address × Account) :=
  stateDiffs.flatMap OrdMap.entries

-- the delta of the diffs says what their commits do
theorem tells_buildTrieDelta {stateDiffs : List StateDiff}
    (h : NoRevival c (diffEntries stateDiffs)) (db : RevmStableDb) (addr : Address) :
    Tells db (commitAll c db stateDiffs) addr ((buildTrieDelta c stateDiffs).get addr) := by
  have hcommit : commitAll c db stateDiffs =
      (diffEntries stateDiffs).foldl (RevmStableDb.commitAccount c) db :=
    (List.foldl_flatMap ..).symm
  have hdelta : buildTrieDelta c stateDiffs =
      (diffEntries stateDiffs).foldl (mergeAccount c) .empty := (List.foldl_flatMap ..).symm
  rw [hcommit, hdelta]
  refine tells_foldl (diffEntries stateDiffs) (fun addr => ?_) (fun e _ d hget => ?_) h addr
  · exact ⟨rfl, fun _ => rfl⟩
  · exact absurd hget (by simp)

open Patricia JournalBuilder Listing

variable {H : Type} [LinearOrder H]

section

variable (c) (codec : StateCodec H)

def storageValues (db : RevmStableDb) (addr : Address) (slot : Nat) : Option Bytes :=
  (db.storage.get ⟨addr, slot⟩).map codec.encodeU256

def accountValues (db : RevmStableDb) (roots : Address → H) (addr : Address) : Option Bytes :=
  (accountFromState c codec db addr (roots addr)).map codec.encodeAccount

-- the root that accounts and storage have, whatever the history of their tries
structure IsStateRoot (db : RevmStableDb) (roots : Address → H) (root : H) : Prop where
  storage : ∀ addr, ∃ e, Lists (slotKey c) (storageValues codec db addr) e ∧
    IsRoot codec.toNodeCodec 64 e (roots addr)
  state : ∃ e, Lists (addrKey c) (accountValues c codec db roots) e ∧
    IsRoot codec.toNodeCodec 64 e root

-- the records hold the tries of the accounts and of their storage
structure Mirrors (b : JournalBuilder H) (db : RevmStableDb) (roots : Address → H) (root : H) :
    Prop where
  storage : ∀ addr, ∃ e, Lists (slotKey c) (storageValues codec db addr) e ∧
    Stored codec.toNodeCodec b 64 (roots addr) e
  state : ∃ e, Lists (addrKey c) (accountValues c codec db roots) e ∧
    Stored codec.toNodeCodec b 64 root e

end

variable {codec : StateCodec H} {b b' : JournalBuilder H}

theorem Mirrors.isStateRoot (hlawful : codec.Lawful) {db : RevmStableDb} {roots : Address → H}
    {root : H} (h : Mirrors c codec b db roots root) : IsStateRoot c codec db roots root := by
  constructor
  · intro addr
    obtain ⟨e, hlists, hstored⟩ := h.storage addr
    exact ⟨e, hlists, hstored.isRoot hlawful⟩
  · obtain ⟨e, hlists, hstored⟩ := h.state
    exact ⟨e, hlists, hstored.isRoot hlawful⟩

theorem isStateRoot_unique (hlawful : codec.Lawful) {db : RevmStableDb} {roots roots' : Address → H}
    {root root' : H} (h : IsStateRoot c codec db roots root)
    (h' : IsStateRoot c codec db roots' root') : roots = roots' ∧ root = root' := by
  have hroots : roots = roots' := by
    funext addr
    obtain ⟨e, hlists, hroot⟩ := h.storage addr
    obtain ⟨e', hlists', hroot'⟩ := h'.storage addr
    rw [hlists.unique hlists'] at hroot
    exact hroot.unique hlawful hroot'
  subst hroots
  obtain ⟨e, hlists, hroot⟩ := h.state
  obtain ⟨e', hlists', hroot'⟩ := h'.state
  rw [hlists.unique hlists'] at hroot
  exact ⟨rfl, hroot.unique hlawful hroot'⟩

theorem length_unpack (bytes : Bytes) : (unpack bytes).length = 2 * bytes.length := by
  induction bytes with
  | nil => rfl
  | cons b bytes ih =>
      rw [unpack, List.flatMap_cons, List.length_append] at *
      rw [ih, List.length_cons, List.length_cons, List.length_cons, List.length_nil]
      omega

theorem length_slotKey (slot : Nat) : (slotKey c slot).length = 64 := by
  rw [slotKey, length_unpack, List.Vector.toList_length]

theorem length_addrKey (addr : Address) : (addrKey c addr).length = 64 := by
  rw [addrKey, length_unpack, List.Vector.toList_length]

theorem get_addrSet (addrs : List Address) (m : OrdMap Address Unit) (addr : Address) :
    ((addrs.foldl (fun m addr => m.insert addr ()) m).get addr).isSome ↔
      addr ∈ addrs ∨ (m.get addr).isSome := by
  induction addrs generalizing m with
  | nil => simp
  | cons a addrs ih =>
      rw [List.foldl_cons, ih, OrdMap.get_insert, List.mem_cons]
      by_cases haddr : addr = a
      · simp [haddr]
      · simp [haddr]

theorem mem_addrSet {addrs : List Address} {addr : Address} :
    addr ∈ (addrSet addrs).keys ↔ addr ∈ addrs := by
  rw [OrdMap.mem_keys, ← Option.isSome_iff_exists, addrSet, get_addrSet]
  simp

theorem overwrite_eq (entries : Entries Nibble Bytes) (ops : List KvOp) :
    overwrite entries ops = writes entries (ops.map (fun op => (op.key, op.value))) := by
  rw [overwrite, writes, List.foldl_map]

variable {K : Type} [DecidableEq K] {path : K → List Nibble} {S : Set K}

-- the sorted operations of a list of writes, each key written once
theorem lists_overwrite (hinj : Set.InjOn path S) {f : K → Option Bytes}
    {entries : Entries Nibble Bytes} (hf : ∀ k, f k ≠ none → k ∈ S) (h : Lists path f entries)
    (es : List (K × Option Bytes)) (hes : ∀ x ∈ es, x.1 ∈ S) (hnodup : (es.map Prod.fst).Nodup) :
    Lists path (writes f es)
      (overwrite entries (sortByKey (es.map (fun x => ⟨path x.1, x.2⟩)))) := by
  have hperm : (sortByKey (es.map (fun x => (⟨path x.1, x.2⟩ : KvOp)))).Perm
      (es.map (fun x => ⟨path x.1, x.2⟩)) := List.mergeSort_perm ..
  have hpairs := hperm.map (fun op : KvOp => (op.key, op.value))
  rw [List.map_map] at hpairs
  have hkeys : ((es.map (fun x => (path x.1, x.2))).map Prod.fst).Nodup := by
    rw [List.map_map]
    change (es.map (path ∘ Prod.fst)).Nodup
    rw [← List.map_map]
    refine hnodup.map_on (fun k hk k' hk' heq => ?_)
    obtain ⟨x, hx, rfl⟩ := List.mem_map.mp hk
    obtain ⟨x', hx', rfl⟩ := List.mem_map.mp hk'
    exact hinj (hes x hx) (hes x' hx') heq
  rw [overwrite_eq, ← writes_perm hkeys hpairs.symm]
  exact h.writes hinj hf hes

end Kasane.Trie
