import Kasane.Trie.RootedChain

namespace Kasane.Trie

open BigEndian Word Patricia JournalBuilder Chain Exec Listing

variable {H : Type} [LinearOrder H] {c : Crypto} {codec : StateCodec H} {lib : RootLibrary H}
  {A : Set Address} {S : Set Nat} {db db' : RevmStableDb} {roots roots' : Address → H} {root : H}
  {world : World (RootState H)} {s : RootChain H} {digest : H → ByteArr 32} {revm : Revm}

-- what a stored account says, and what an address without one says
structure AccountView where
  nonce : Nat
  balance : Nat
  codeHash : ByteArr 32

def accountView (c : Crypto) (db : RevmStableDb) (addr : Address) : AccountView :=
  match db.accounts.get addr with
  | some val => ⟨val.nonce, val.balance, normalizeCodeHash c val.codeHash⟩
  | none => ⟨0, 0, keccakEmpty c⟩

def AccountView.withRoot (view : AccountView) (root : H) : TrieAccount H :=
  ⟨view.nonce, view.balance, root, view.codeHash⟩

theorem accountFromState_view (addr : Address) (root : H) :
    accountFromState c codec db addr root =
      nonEmpty c codec ((accountView c db addr).withRoot root) := by
  rw [accountFromState_eq, accountView]
  cases db.accounts.get addr <;> rfl

theorem withRoot_injective {view view' : AccountView} {root root' : H}
    (h : view.withRoot root = view'.withRoot root') : view = view' ∧ root = root' := by
  obtain ⟨hnonce, hbalance, hroot, hcode⟩ := TrieAccount.mk.inj h
  refine ⟨?_, hroot⟩
  cases view
  cases view'
  dsimp only at hnonce hbalance hcode
  rw [hnonce, hbalance, hcode]

theorem eq_of_isEmpty {account account' : TrieAccount H}
    (h : isEmptyTrieAccount c codec account = true)
    (h' : isEmptyTrieAccount c codec account' = true) : account = account' := by
  obtain ⟨hnonce, hbalance, hroot, hcode⟩ := of_decide_eq_true h
  obtain ⟨hnonce', hbalance', hroot', hcode'⟩ := of_decide_eq_true h'
  cases account
  cases account'
  dsimp only at *
  rw [hnonce, hbalance, hroot, hcode, hnonce', hbalance', hroot', hcode']

-- the empty account is one only, so leaving it out loses nothing
theorem nonEmpty_injective {account account' : TrieAccount H}
    (h : nonEmpty c codec account = nonEmpty c codec account') : account = account' := by
  rw [nonEmpty, nonEmpty] at h
  split_ifs at h with hempty hempty'
  · exact eq_of_isEmpty hempty hempty'
  · exact Option.some.inj h

-- the encoders keep apart what fits their fields
structure StateCodec.Faithful (codec : StateCodec H) : Prop where
  values : Set.InjOn codec.encodeU256 {v | v ≤ u256Max}
  accounts : Set.InjOn codec.encodeAccount {a | a.nonce ≤ u64Max ∧ a.balance ≤ u256Max}

structure Fits (db : RevmStableDb) : Prop where
  accounts : ∀ addr val, db.accounts.get addr = some val → val.nonce ≤ u64Max ∧ val.balance ≤ u256Max
  storage : ∀ key val, db.storage.get key = some val → val ≤ u256Max

theorem Fits.view (h : Fits db) (addr : Address) :
    (accountView c db addr).nonce ≤ u64Max ∧ (accountView c db addr).balance ≤ u256Max := by
  rw [accountView]
  cases hget : db.accounts.get addr with
  | none => exact ⟨Nat.zero_le _, Nat.zero_le _⟩
  | some val => exact h.accounts addr val hget

theorem map_injOn {V : Type} {enc : V → Bytes} {T : Set V} (h : Set.InjOn enc T) {x y : Option V}
    (hx : ∀ v, x = some v → v ∈ T) (hy : ∀ v, y = some v → v ∈ T) (heq : x.map enc = y.map enc) :
    x = y := by
  cases x with
  | none => exact (Option.map_eq_none_iff.mp heq.symm).symm
  | some v =>
      obtain ⟨w, rfl, henc⟩ := Option.map_eq_some_iff.mp heq.symm
      rw [h (hx v rfl) (hy w rfl) henc.symm]

theorem mem_account (hlawful : codec.Lawful) (hwithin : Within A S db)
    (hright : RightRoots c codec db roots) {addr : Address}
    (h : accountValues c codec db roots addr ≠ none) : addr ∈ A :=
  mem_rebuilt (t := emptyTrie codec) hlawful hwithin (fun _ _ hget => absurd hget (by simp [emptyTrie]))
    hright h

theorem storage_of_root (hlawful : codec.Lawful) (hfaithful : codec.Faithful) (hapart : Apart c A S)
    (hwithin : Within A S db) (hwithin' : Within A S db') (hfits : Fits db) (hfits' : Fits db')
    (hright : RightRoots c codec db roots) (hright' : RightRoots c codec db' roots') {addr : Address}
    (hroot : roots addr = roots' addr) (slot : Nat) :
    db.storage.get ⟨addr, slot⟩ = db'.storage.get ⟨addr, slot⟩ := by
  obtain ⟨e, hlists, he⟩ := hright addr
  obtain ⟨e', hlists', he'⟩ := hright' addr
  rw [hroot] at he
  rw [← he.entries_unique hlawful he'] at hlists'
  have hvalues := hlists.functional hlists' hapart.slots
    (fun k hk => by
      obtain ⟨v, hv⟩ := Option.ne_none_iff_exists'.mp (fun hnone => hk (congrArg _ hnone))
      exact (hwithin.storage ⟨addr, k⟩ v hv).2)
    (fun k hk => by
      obtain ⟨v, hv⟩ := Option.ne_none_iff_exists'.mp (fun hnone => hk (congrArg _ hnone))
      exact (hwithin'.storage ⟨addr, k⟩ v hv).2)
  exact map_injOn hfaithful.values (hfits.storage ⟨addr, slot⟩) (hfits'.storage ⟨addr, slot⟩)
    (congrFun hvalues slot)

theorem account_of_value (hfaithful : codec.Faithful) (hfits : Fits db) (hfits' : Fits db')
    {addr : Address} (hvalue : accountValues c codec db roots addr =
      accountValues c codec db' roots' addr) :
    accountView c db addr = accountView c db' addr ∧ roots addr = roots' addr := by
  have hsound {db : RevmStableDb} (hfits : Fits db) (root : H) (account : TrieAccount H)
      (h : accountFromState c codec db addr root = some account) :
      account.nonce ≤ u64Max ∧ account.balance ≤ u256Max := by
    rw [accountFromState_view, nonEmpty] at h
    split_ifs at h
    obtain rfl := Option.some.inj h
    exact hfits.view addr
  have hsame := map_injOn hfaithful.accounts (hsound hfits _) (hsound hfits' _) hvalue
  rw [accountFromState_view, accountFromState_view] at hsame
  exact withRoot_injective (nonEmpty_injective hsame)

-- two states that agree on every account, empty or absent alike, and on all of their storage
structure SameState (c : Crypto) (db db' : RevmStableDb) : Prop where
  accounts : accountView c db = accountView c db'
  storage : db.storage = db'.storage

theorem sameState_of_root (hlawful : codec.Lawful) (hfaithful : codec.Faithful)
    (hapart : Apart c A S) (hwithin : Within A S db) (hwithin' : Within A S db') (hfits : Fits db)
    (hfits' : Fits db') (h : IsStateRoot c codec db roots root)
    (h' : IsStateRoot c codec db' roots' root) : SameState c db db' := by
  obtain ⟨e, hlists, he⟩ := h.state
  obtain ⟨e', hlists', he'⟩ := h'.state
  rw [← he.entries_unique hlawful he'] at hlists'
  have hvalues := hlists.functional hlists' hapart.addrs
    (fun _ hk => mem_account hlawful hwithin h.storage hk)
    (fun _ hk => mem_account hlawful hwithin' h'.storage hk)
  have haccounts (addr : Address) := account_of_value hfaithful hfits hfits' (congrFun hvalues addr)
  refine ⟨funext fun addr => (haccounts addr).1, OrdMap.ext_get (fun key => ?_)⟩
  exact storage_of_root hlawful hfaithful hapart hwithin hwithin' hfits hfits' h.storage h'.storage
    (haccounts key.address).2 key.slot

theorem root_of_sameState (hlawful : codec.Lawful) (hsame : SameState c db db') {root' : H}
    (h : IsStateRoot c codec db roots root) (h' : IsStateRoot c codec db' roots' root') :
    roots = roots' ∧ root = root' := by
  have hstorage (addr : Address) : storageValues codec db addr = storageValues codec db' addr := by
    funext slot
    rw [storageValues, hsame.storage, storageValues]
  have haccounts (roots : Address → H) :
      accountValues c codec db roots = accountValues c codec db' roots := by
    funext addr
    rw [accountValues, accountFromState_view, hsame.accounts, accountValues, accountFromState_view]
  refine isStateRoot_unique hlawful h ⟨fun addr => ?_, ?_⟩
  · rw [hstorage]
    exact h'.storage addr
  · rw [haccounts]
    exact h'.state

theorem rooted_of_ready {t : RootState H} (h : Ready c codec lib db t)
    (hdone : t.initialized = true) : Rooted c codec db t := by
  cases h with
  | pending fresh migrating tidy => exact absurd (fresh.symm.trans hdone) Bool.false_ne_true
  | rooted h => exact h

structure Starts (c : Crypto) (codec : StateCodec H) (lib : RootLibrary H) (A : Set Address)
    (S : Set Nat) (world : World (RootState H)) : Prop where
  lawful : codec.Lawful
  apart : Apart c A S
  library : lib.Right c codec
  ready : ChainReady c codec lib A S world

theorem rooted_run (h : Starts c codec lib A S world)
    (run : RootRun c codec lib digest revm A S (.init world) s)
    (hdone : s.world.trie.initialized = true) :
    Within A S s.world.db ∧ Rooted c codec s.world.db s.world.trie := by
  have hstart : ChainReady c codec lib A S (.init world : RootChain H).world := h.ready
  have hready := chainReady_run h.lawful h.apart h.library hstart run
  exact ⟨hready.within, rooted_of_ready hready.ready hdone⟩

theorem run_ticks {t : RootState H} {steps : List Nat}
    (run : RootRun c codec lib digest revm A S (.init world) s)
    (h : runTicks c codec lib s.world.db s.world.trie steps = some t) :
    RootRun c codec lib digest revm A S (.init world)
      { s with world := { s.world with trie := t } } := by
  induction steps generalizing s with
  | nil =>
      obtain rfl := Option.some.inj h
      exact run
  | cons maxSteps steps ih =>
      rw [runTicks, List.foldlM_cons] at h
      obtain ⟨t₁, htick, h⟩ := Option.bind_eq_some_iff.mp h
      obtain ⟨⟨done, t₁⟩, hr, rfl⟩ := Option.map_eq_some_iff.mp htick
      exact ih (s := { s with world := { s.world with trie := t₁ } }) (run.tick hr) h

def sampleWorld : World (RootState Bytes) := ⟨sampleDb, freshRoot plainState⟩

theorem encode_injOn (w : Nat) : Set.InjOn (encode w) {n | n < 256 ^ w} := by
  intro m hm n hn heq
  have hdecode := congrArg decode heq
  rwa [decode_encode_of_lt hm, decode_encode_of_lt hn] at hdecode

theorem plain_faithful : plainState.Faithful where
  values := by
    intro v hv w hw heq
    exact encode_injOn 32 (Nat.lt_of_le_of_lt hv (by decide)) (Nat.lt_of_le_of_lt hw (by decide)) heq
  accounts := by
    intro a ha a' ha' heq
    obtain ⟨nonce, balance, root, code⟩ := a
    obtain ⟨nonce', balance', root', code'⟩ := a'
    change plainAccount _ = plainAccount _ at heq
    rw [plainAccount, plainAccount, List.append_assoc, List.append_assoc, List.append_assoc,
      List.append_assoc] at heq
    obtain ⟨hnonce, heq⟩ := List.append_inj heq (by rw [length_encode, length_encode])
    obtain ⟨hbalance, heq⟩ := List.append_inj heq (by rw [length_encode, length_encode])
    have hread := congrArg readBytes heq
    rw [readBytes_plain, readBytes_plain] at hread
    obtain ⟨hroot, hcode⟩ := Prod.mk.inj (Option.some.inj hread)
    have hsameNonce : nonce = nonce' := encode_injOn 8 (Nat.lt_of_le_of_lt ha.1 (by decide))
      (Nat.lt_of_le_of_lt ha'.1 (by decide)) hnonce
    have hsameBalance : balance = balance' := encode_injOn 32 (Nat.lt_of_le_of_lt ha.2 (by decide))
      (Nat.lt_of_le_of_lt ha'.2 (by decide)) hbalance
    dsimp only at hroot hcode
    rw [hsameNonce, hsameBalance, hroot, Subtype.ext hcode]

theorem sampleDb_fits : Fits sampleDb where
  accounts := by
    intro addr val hget
    obtain ⟨-, rfl⟩ := Prod.mk.inj (List.mem_singleton.mp (OrdMap.mem_entries.mpr hget))
    exact ⟨by decide, by decide⟩
  storage := by
    intro key val hget
    obtain ⟨-, rfl⟩ := Prod.mk.inj (List.mem_singleton.mp (OrdMap.mem_entries.mpr hget))
    decide

theorem sampleWorld_starts :
    Starts sampleCrypto plainState sampleLib {zeroArr 20} {7} sampleWorld where
  lawful := plain_lawful
  apart := ⟨Set.injOn_singleton _ _, Set.injOn_singleton _ _⟩
  library := builtLibrary_right plain_lawful
  ready := ⟨sampleDb_within, ready_fresh (tidyWorld_of_noEmpty plain_lawful sampleDb_noEmpty)⟩

theorem sampleWorld_migrated (steps : List Nat) (hlong : 6 ≤ steps.length) :
    ∃ s : RootChain Bytes, RootRun sampleCrypto plainState sampleLib sampleDigest sampleRevm
        {zeroArr 20} {7} (.init sampleWorld) s ∧ s.world.db = sampleDb ∧
      s.world.trie.initialized = true ∧ s.world.trie.stateRoot ≠ emptyRoot plainState := by
  have hstarts := sampleWorld_starts
  have htidy : TidyWorld sampleCrypto plainState sampleDb :=
    tidyWorld_of_noEmpty plain_lawful sampleDb_noEmpty
  have hmigrating : Migrating sampleCrypto plainState sampleLib sampleDb (freshRoot plainState) :=
    fun htrue => absurd htrue Bool.false_ne_true
  obtain ⟨t, ht, hmigrated, hleft⟩ := ticks_runTicks hstarts.lawful hstarts.apart
    sampleDb_within hstarts.library htidy hmigrating steps
  have hsix : ticksLeft sampleDb (freshRoot plainState) = 6 := rfl
  have hend := migrated_of_noneLeft hmigrated (by omega)
  refine ⟨_, run_ticks .start ht, rfl, hend.initialized, fun hroot => ?_⟩
  obtain ⟨e, hlists, hstored⟩ := hend.mirrors.state
  have hvalue : accountValues sampleCrypto plainState sampleDb
      (storedRoot plainState t.toTrieState) (zeroArr 20) ≠ none := by
    have haccount : sampleDb.accounts.get (zeroArr 20) = some ⟨1, 5, keccakEmpty sampleCrypto⟩ := rfl
    rw [accountValues, accountFromState, haccount]
    simp [isEmptyTrieAccount]
  obtain ⟨v, hv⟩ := Option.ne_none_iff_exists'.mp hvalue
  have hempty := hstored.isRoot hstarts.lawful
  rw [hroot] at hempty
  have hentry := hlists.holds _ v hv
  rw [hempty.entries_unique hstarts.lawful .empty] at hentry
  cases hentry

-- two nodes, whatever their runs, have one state root if and only if they have one state
theorem state_roots_agree_iff (hfaithful : codec.Faithful) (h : Starts c codec lib A S world)
    (run : RootRun c codec lib digest revm A S (.init world) s)
    (hdone : s.world.trie.initialized = true) (hfits : Fits s.world.db)
    {world' : World (RootState H)} (h' : Starts c codec lib A S world') {s' : RootChain H}
    {digest' : H → ByteArr 32} {revm' : Revm}
    (run' : RootRun c codec lib digest' revm' A S (.init world') s')
    (hdone' : s'.world.trie.initialized = true) (hfits' : Fits s'.world.db) :
    s.world.trie.stateRoot = s'.world.trie.stateRoot ↔ SameState c s.world.db s'.world.db := by
  obtain ⟨hwithin, hrooted⟩ := rooted_run h run hdone
  obtain ⟨hwithin', hrooted'⟩ := rooted_run h' run' hdone'
  have hroot := hrooted.mirrors.isStateRoot h.lawful
  have hroot' := hrooted'.mirrors.isStateRoot h.lawful
  constructor
  · intro heq
    rw [← heq] at hroot'
    exact sameState_of_root h.lawful hfaithful h.apart hwithin hwithin' hfits hfits' hroot hroot'
  · intro hsame
    exact (root_of_sameState h.lawful hsame hroot hroot').2

theorem state_roots_agree_sample : ∃ s s' : RootChain Bytes,
    s.world.db = sampleDb ∧ s'.world.db = sampleDb ∧
      (s.world.trie.stateRoot = s'.world.trie.stateRoot ↔
        SameState sampleCrypto s.world.db s'.world.db) := by
  obtain ⟨s, run, hdb, hdone, -⟩ := sampleWorld_migrated [1, 1, 1, 1, 1, 1] (by decide)
  obtain ⟨s', run', hdb', hdone', -⟩ :=
    sampleWorld_migrated [1, 512, 1, 1, 1, 1, 1] (by decide)
  refine ⟨s, s', hdb, hdb', state_roots_agree_iff plain_faithful sampleWorld_starts run hdone ?_
    sampleWorld_starts run' hdone' ?_⟩
  · rw [hdb]
    exact sampleDb_fits
  · rw [hdb']
    exact sampleDb_fits

-- the root that was carried along is the one computed from accounts and storage at once
theorem recomputed_root (h : Starts c codec lib A S world)
    (run : RootRun c codec lib digest revm A S (.init world) s)
    (hdone : s.world.trie.initialized = true) :
    computeStateRootFromCache c codec lib s.world.db s.world.trie.toTrieState =
        s.world.trie.stateRoot ∧
      ∀ addr, computeStorageRootForAddress codec lib s.world.db addr =
        storedRoot codec s.world.trie.toTrieState addr := by
  obtain ⟨hwithin, hrooted⟩ := rooted_run h run hdone
  obtain ⟨e, hlists, hstored⟩ := hrooted.mirrors.state
  refine ⟨(isStateRoot_cache h.library hlists).unique h.lawful (hstored.isRoot h.lawful), fun addr => ?_⟩
  exact congrFun (rightRoots_unique h.lawful
    (rightRoots_rootAt h.lawful h.apart hwithin h.library)
    (hrooted.mirrors.isStateRoot h.lawful).storage) addr

theorem recomputed_root_sample : ∃ s : RootChain Bytes, s.world.db = sampleDb ∧
    computeStateRootFromCache sampleCrypto plainState sampleLib s.world.db
        s.world.trie.toTrieState = s.world.trie.stateRoot ∧
      ∀ addr, computeStorageRootForAddress plainState sampleLib s.world.db addr =
        storedRoot plainState s.world.trie.toTrieState addr := by
  obtain ⟨s, run, hdb, hdone, -⟩ := sampleWorld_migrated [1, 1, 1, 1, 1, 1] (by decide)
  exact ⟨s, hdb, recomputed_root sampleWorld_starts run hdone⟩

end Kasane.Trie
