import Kasane.Trie.Rebuild

namespace Kasane.Trie

open BigEndian Patricia JournalBuilder Chain Exec Listing

variable {H : Type} [LinearOrder H] {c : Crypto} {codec : StateCodec H} {lib : RootLibrary H}
  {A : Set Address} {S : Set Nat} {db : RevmStableDb} {t : TrieState H}

-- the leaves of a listing, under the paths of its keys
structure Leaves {K V : Type} (path : K → List Nibble) (enc : V → Bytes) (l : List (K × V))
    (e : Entries Nibble Bytes) : Prop where
  holds : ∀ x ∈ l, e (path x.1) = some (enc x.2)
  only : ∀ p v, e p = some v → ∃ x ∈ l, path x.1 = p ∧ enc x.2 = v

-- the library computes the root of the leaves that it is given
structure RootLibrary.Right (c : Crypto) (codec : StateCodec H) (lib : RootLibrary H) : Prop where
  storage : ∀ slots e, Leaves (slotKey c) codec.encodeU256 slots e →
    IsRoot codec.toNodeCodec 64 e (lib.storageRootUnhashed slots)
  state : ∀ accounts e, Leaves (addrKey c) codec.encodeAccount accounts e →
    IsRoot codec.toNodeCodec 64 e (lib.stateRootUnhashed accounts)

theorem leaves_of_lists {K V : Type} {path : K → List Nibble} {enc : V → Bytes} {l : List (K × V)}
    (get : K → Option V) {e : Entries Nibble Bytes} (hget : ∀ k v, get k = some v ↔ (k, v) ∈ l)
    (h : Lists path (fun k => (get k).map enc) e) : Leaves path enc l e where
  holds := by
    intro x hx
    refine h.holds x.1 (enc x.2) ?_
    rw [(hget x.1 x.2).mpr hx]
    rfl
  only := by
    intro p v hp
    obtain ⟨k, hk, rfl⟩ := h.only p v hp
    obtain ⟨w, hw, rfl⟩ := Option.map_eq_some_iff.mp hk
    exact ⟨(k, w), (hget k w).mp hw, rfl, rfl⟩

theorem mem_storageSlots {addr : Address} {slot value : Nat} :
    (slot, value) ∈ storageSlots db addr ↔ db.storage.get ⟨addr, slot⟩ = some value := by
  rw [storageSlots, List.mem_map]
  constructor
  · rintro ⟨⟨⟨a, s⟩, v⟩, he, heq⟩
    obtain ⟨hmem, haddr⟩ := List.mem_filter.mp he
    obtain rfl : a = addr := of_decide_eq_true haddr
    obtain ⟨rfl, rfl⟩ := Prod.mk.inj heq
    exact OrdMap.mem_entries.mp hmem
  · intro hget
    refine ⟨(⟨addr, slot⟩, value), List.mem_filter.mpr ⟨OrdMap.mem_entries.mpr hget, ?_⟩, rfl⟩
    exact decide_eq_true rfl

theorem exists_storageListing (hlawful : codec.Lawful) (hapart : Apart c A S)
    (hwithin : Within A S db) (addr : Address) :
    ∃ e, Lists (slotKey c) (storageValues codec db addr) e := by
  obtain ⟨-, -, -, e, hlists, -⟩ := held_rebuilt codec hlawful hapart hwithin
    (genuine_new (fun _ _ h => absurd h (by simp)) : Genuine codec.toNodeCodec (.new .empty)) addr
  exact ⟨e, hlists⟩

def rootAt (codec : StateCodec H) (lib : RootLibrary H) (db : RevmStableDb) (addr : Address) : H :=
  computeStorageRootForAddress codec lib db addr

theorem rootAt_noStorage {addr : Address} (h : ∀ slot, db.storage.get ⟨addr, slot⟩ = none) :
    rootAt codec lib db addr = emptyRoot codec := by
  have hslots : storageSlots db addr = [] := by
    refine List.eq_nil_iff_forall_not_mem.mpr (fun s hs => ?_)
    have hget := mem_storageSlots.mp (show (s.1, s.2) ∈ storageSlots db addr from hs)
    rw [h s.1] at hget
    cases hget
  rw [rootAt, computeStorageRootForAddress, hslots]

-- the root computed slot by slot is the one that the storage determines
theorem rightRoots_rootAt (hlawful : codec.Lawful) (hapart : Apart c A S) (hwithin : Within A S db)
    (hlib : lib.Right c codec) : RightRoots c codec db (rootAt codec lib db) := by
  intro addr
  obtain ⟨e, hlists⟩ := exists_storageListing hlawful hapart hwithin addr
  refine ⟨e, hlists, ?_⟩
  have hleaves : Leaves (slotKey c) codec.encodeU256 (storageSlots db addr) e :=
    leaves_of_lists (fun slot => db.storage.get ⟨addr, slot⟩)
      (fun _ _ => mem_storageSlots.symm) hlists
  cases hslots : storageSlots db addr with
  | nil =>
      rw [hslots] at hleaves
      have hnone : e = fun _ => none := by
        funext p
        cases hp : e p with
        | none => rfl
        | some v =>
            obtain ⟨x, hx, -⟩ := hleaves.only p v hp
            exact absurd hx List.not_mem_nil
      rw [rootAt, computeStorageRootForAddress, hslots, hnone]
      exact .empty
  | cons s slots =>
      rw [hslots] at hleaves
      rw [rootAt, computeStorageRootForAddress, hslots]
      exact hlib.storage _ e hleaves

theorem rightRoots_unique (hlawful : codec.Lawful) {roots roots' : Address → H}
    (h : RightRoots c codec db roots) (h' : RightRoots c codec db roots') : roots = roots' := by
  funext addr
  obtain ⟨e, hlists, hroot⟩ := h addr
  obtain ⟨e', hlists', hroot'⟩ := h' addr
  rw [hlists.unique hlists'] at hroot
  exact hroot.unique hlawful hroot'

def rootEntry (codec : StateCodec H) (lib : RootLibrary H) (db : RevmStableDb) (addr : Address) :
    Option H :=
  if rootAt codec lib db addr = emptyRoot codec then none else some (rootAt codec lib db addr)

theorem get_setStorageRoot (roots : OrdMap Address H) (a addr : Address) :
    (setStorageRoot codec lib db roots a).get addr =
      if addr = a then rootEntry codec lib db addr else roots.get addr := by
  rw [setStorageRoot, rootEntry, rootAt]
  by_cases haddr : addr = a
  · subst haddr
    rw [if_pos rfl]
    split_ifs
    · exact (OrdMap.get_remove ..).trans (if_pos rfl)
    · exact (OrdMap.get_insert ..).trans (if_pos rfl)
  · rw [if_neg haddr]
    split_ifs
    · exact (OrdMap.get_remove ..).trans (if_neg haddr)
    · exact (OrdMap.get_insert ..).trans (if_neg haddr)

theorem get_setStorageRoots (addrs : List Address) (roots : OrdMap Address H) (addr : Address) :
    (addrs.foldl (setStorageRoot codec lib db) roots).get addr =
      if addr ∈ addrs then rootEntry codec lib db addr else roots.get addr := by
  induction addrs generalizing roots with
  | nil => rfl
  | cons a addrs ih =>
      rw [List.foldl_cons, ih, get_setStorageRoot]
      by_cases haddr : addr = a
      · simp [haddr]
      · simp [haddr]

-- every storage root is in the cache, and nothing else is
def Cached (codec : StateCodec H) (lib : RootLibrary H) (db : RevmStableDb)
    (roots : OrdMap Address H) : Prop :=
  ∀ addr, roots.get addr = rootEntry codec lib db addr

theorem Cached.storedRoot (h : Cached codec lib db t.storageRoots) :
    storedRoot codec t = rootAt codec lib db := by
  funext addr
  rw [Trie.storedRoot, h addr, rootEntry]
  split_ifs with hroot
  · exact hroot.symm
  · rfl

theorem Cached.storage (h : Cached codec lib db t.storageRoots) {addr : Address} {root : H}
    (hget : t.storageRoots.get addr = some root) : addr ∈ storageAddrs db := by
  by_contra hout
  rw [h addr, rootEntry, if_pos (rootAt_noStorage (noStorage_of_not_mem hout))] at hget
  cases hget

def nonEmpty (c : Crypto) (codec : StateCodec H) (account : TrieAccount H) :
    Option (TrieAccount H) :=
  if isEmptyTrieAccount c codec account then none else some account

def accountOf (c : Crypto) (root : H) (val : AccountVal) : TrieAccount H :=
  ⟨val.nonce, val.balance, root, normalizeCodeHash c val.codeHash⟩

theorem accountFromState_eq (addr : Address) (root : H) :
    accountFromState c codec db addr root = nonEmpty c codec
      ((db.accounts.get addr).elim ⟨0, 0, root, keccakEmpty c⟩ (accountOf c root)) := by
  rw [accountFromState]
  cases db.accounts.get addr <;> rfl

theorem get_insertUnless {V : Type} (p : Prop) [Decidable p] (m : OrdMap Address V) (k addr : Address)
    (v : V) : (if p then m else m.insert k v).get addr =
      if addr = k then (if p then none else some v).or (m.get addr) else m.get addr := by
  by_cases hp : p
  · simp [hp]
  · rw [if_neg hp, if_neg hp, OrdMap.get_insert, Option.some_or]
    congr

theorem get_cacheAccounts (roots : OrdMap Address H) (accounts : OrdMap Address AccountVal)
    (addr : Address) : (accounts.entries.foldl (cacheAccount c codec roots) .empty).get addr =
      (accounts.get addr).bind
        (fun val => nonEmpty c codec (accountOf c ((roots.get addr).getD (emptyRoot codec)) val)) := by
  have hfold := OrdMap.foldl_at (fun m : OrdMap Address (TrieAccount H) => m.get addr)
    (cacheAccount c codec roots) addr (fun was val => (nonEmpty c codec
      (accountOf c ((roots.get addr).getD (emptyRoot codec)) val)).or was)
    (fun m val => (get_insertUnless ..).trans (if_pos rfl))
    (fun m e he => (get_insertUnless ..).trans (if_neg (Ne.symm he))) accounts.keys_nodup .empty
  have hget : OrdMap.lookupIn addr accounts.entries = accounts.get addr := rfl
  rw [hfold, hget]
  cases accounts.get addr with
  | none => rfl
  | some val => exact Option.or_none

theorem get_cacheStorageRoot (m : OrdMap Address (TrieAccount H)) (e : Address × H)
    (addr : Address) : (cacheStorageRoot c codec m e).get addr =
      if addr = e.1 then (m.get addr).or (nonEmpty c codec ⟨0, 0, e.2, keccakEmpty c⟩)
      else m.get addr := by
  rw [cacheStorageRoot]
  cases hget : m.get e.1 with
  | some account =>
      by_cases haddr : addr = e.1
      · rw [if_pos haddr, haddr, hget]
        rfl
      · rw [if_neg haddr]
  | none =>
      refine (get_insertUnless ..).trans ?_
      by_cases haddr : addr = e.1
      · rw [if_pos haddr, if_pos haddr, haddr, hget, Option.or_none]
        rfl
      · rw [if_neg haddr, if_neg haddr]

-- the accounts of the cache are those that the trie of the accounts holds
theorem get_cachedAccounts (addr : Address) :
    (cachedAccounts c codec db t.storageRoots).get addr =
      accountFromState c codec db addr (storedRoot codec t addr) := by
  have hfold := OrdMap.foldl_at (fun m : OrdMap Address (TrieAccount H) => m.get addr)
    (cacheStorageRoot c codec) addr
    (fun was root => was.or (nonEmpty c codec ⟨0, 0, root, keccakEmpty c⟩))
    (fun m root => (get_cacheStorageRoot m (addr, root) addr).trans (if_pos rfl))
    (fun m e he => (get_cacheStorageRoot m e addr).trans (if_neg (Ne.symm he)))
    t.storageRoots.keys_nodup (db.accounts.entries.foldl (cacheAccount c codec t.storageRoots) .empty)
  have hget : OrdMap.lookupIn addr t.storageRoots.entries = t.storageRoots.get addr := rfl
  rw [cachedAccounts, hfold, hget, get_cacheAccounts, accountFromState_eq, storedRoot]
  have hempty {root : H} (h : root = emptyRoot codec) :
      nonEmpty c codec ⟨0, 0, root, keccakEmpty c⟩ = none := if_pos (isEmpty_noAccount h)
  cases haccount : db.accounts.get addr with
  | none =>
      cases hroot : t.storageRoots.get addr with
      | none => exact (hempty rfl).symm
      | some root => exact Option.none_or
  | some val =>
      cases hroot : t.storageRoots.get addr with
      | none => rfl
      | some root =>
          change (nonEmpty c codec (accountOf c root val)).or (nonEmpty c codec _) =
            nonEmpty c codec (accountOf c root val)
          by_cases hisEmpty : isEmptyTrieAccount c codec (accountOf c root val) = true
          · have hsame : root = emptyRoot codec := (of_decide_eq_true hisEmpty).2.2.1
            rw [hempty hsame, Option.or_none]
          · rw [nonEmpty, if_neg hisEmpty]
            rfl

-- the state root of the cache is the one that accounts and storage determine
theorem isStateRoot_cache (hlib : lib.Right c codec) {e : Entries Nibble Bytes}
    (hlists : Lists (addrKey c) (accountValues c codec db (storedRoot codec t)) e) :
    IsRoot codec.toNodeCodec 64 e (computeStateRootFromCache c codec lib db t) := by
  refine hlib.state _ e (leaves_of_lists
    (fun addr => (cachedAccounts c codec db t.storageRoots).get addr)
    (fun _ _ => OrdMap.mem_entries.symm) ?_)
  have hvalues : (fun addr => ((cachedAccounts c codec db t.storageRoots).get addr).map
      codec.encodeAccount) = accountValues c codec db (storedRoot codec t) := by
    funext addr
    rw [get_cachedAccounts, accountValues]
  rwa [hvalues]

end Kasane.Trie
