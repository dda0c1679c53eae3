import Kasane.Exec.Db
import Mathlib.Tactic.SplitIfs

namespace Kasane.Exec

open BigEndian Codec Word Chain

variable {c : Crypto}

namespace CacheDb

theorem get_presentStorage (storage : OrdMap Nat Nat) (slots : OrdMap Nat EvmStorageSlot)
    (index : Nat) : (presentStorage storage slots).get index =
      (slots.get index).elim (storage.get index) (fun slot => some slot.presentValue) :=
  OrdMap.get_foldl_keyed OrdMap.get (fun m (e : Nat × EvmStorageSlot) => m.insert e.1 e.2.presentValue)
    (fun _ slot => some slot.presentValue) (fun _ _ => (OrdMap.get_insert ..).trans (if_pos rfl))
    (fun _ _ _ hne => (OrdMap.get_insert ..).trans (if_neg hne)) slots.keys_nodup storage index

theorem presentStorage_twice (storage : OrdMap Nat Nat) (slots : OrdMap Nat EvmStorageSlot) :
    presentStorage (presentStorage storage slots) slots = presentStorage storage slots := by
  apply OrdMap.ext_get
  intro index
  rw [get_presentStorage, get_presentStorage]
  cases slots.get index <;> rfl

theorem updateAccount_twice (old : DbAccount) (account : Account) :
    updateAccount c (updateAccount c old account) account = updateAccount c old account := by
  simp only [updateAccount]
  by_cases hdestructed : account.selfdestructed
  · simp only [hdestructed, if_true]
  · by_cases hcreated : account.created
    · simp only [hdestructed, hcreated, if_true]
    · by_cases hcleared : old.accountState = .storageCleared
      · simp [hdestructed, hcreated, hcleared, presentStorage_twice]
      · simp [hdestructed, hcreated, hcleared, presentStorage_twice]

def accountAfter (c : Crypto) (old : Option DbAccount) (account : Account) : Option DbAccount :=
  if account.touched = false then old
  else some (updateAccount c (old.getD (.default c)) account)

theorem accountAfter_twice (old : Option DbAccount) (account : Account) :
    accountAfter c (accountAfter c old account) account = accountAfter c old account := by
  simp only [accountAfter]
  split_ifs with htouched
  · rfl
  · rw [Option.getD_some, updateAccount_twice]

theorem get_commitAccount_self (x : CacheDb) (e : Address × Account) :
    (x.commitAccount c e).accounts.get e.1 = accountAfter c (x.accounts.get e.1) e.2 := by
  rw [commitAccount, accountAfter]
  split_ifs with htouched
  · rfl
  · exact (OrdMap.get_insert ..).trans (if_pos rfl)
  · exact (OrdMap.get_insert ..).trans (if_pos rfl)

theorem get_commitAccount_of_ne (x : CacheDb) (e : Address × Account) (address : Address)
    (h : address ≠ e.1) : (x.commitAccount c e).accounts.get address = x.accounts.get address := by
  rw [commitAccount]
  split_ifs with htouched
  · rfl
  · exact (OrdMap.get_insert ..).trans (if_neg h)
  · exact (OrdMap.get_insert ..).trans (if_neg h)

theorem get_commit (x : CacheDb) (diff : StateDiff) (address : Address) :
    (x.commit c diff).accounts.get address =
      (diff.get address).elim (x.accounts.get address) (accountAfter c (x.accounts.get address)) :=
  OrdMap.get_foldl_keyed (fun x : CacheDb => x.accounts.get) (commitAccount c) (accountAfter c)
    get_commitAccount_self get_commitAccount_of_ne diff.keys_nodup x address

def contractsAfter (c : Crypto) (contracts : OrdMap (ByteArr 32) Bytes) (e : Address × Account) :
    OrdMap (ByteArr 32) Bytes :=
  if e.2.touched = false ∨ e.2.selfdestructed then contracts
  else insertContract c contracts e.2.info

theorem foldl_commitAccount (es : List (Address × Account)) (x : CacheDb) :
    (es.foldl (commitAccount c) x).contracts = es.foldl (contractsAfter c) x.contracts ∧
      (es.foldl (commitAccount c) x).db = x.db := by
  induction es generalizing x with
  | nil => exact ⟨rfl, rfl⟩
  | cons e es ih =>
      obtain ⟨hcontracts, hdb⟩ := ih (x.commitAccount c e)
      rw [List.foldl_cons, List.foldl_cons, hcontracts, hdb]
      have hone : (x.commitAccount c e).contracts = contractsAfter c x.contracts e := by
        rw [commitAccount, contractsAfter]
        split_ifs with h₁ h₂ h₂ <;> simp_all
      refine ⟨by rw [hone], ?_⟩
      rw [commitAccount]
      split_ifs <;> rfl

def HasContract (c : Crypto) (contracts : OrdMap (ByteArr 32) Bytes) (e : Address × Account) : Prop :=
  contractsAfter c contracts e = contracts

theorem contractsAfter_grows (contracts : OrdMap (ByteArr 32) Bytes) (e : Address × Account) :
    ∀ h, (contracts.get h).isSome → ((contractsAfter c contracts e).get h).isSome := by
  intro h hsome
  rw [contractsAfter, insertContract]
  split_ifs
  · exact hsome
  · split
    · rw [OrdMap.isSome_orInsert, hsome, Bool.or_true]
    · exact hsome

theorem hasContract_of_grows {contracts contracts' : OrdMap (ByteArr 32) Bytes}
    (e : Address × Account)
    (hgrows : ∀ h, ((contractsAfter c contracts e).get h).isSome → (contracts'.get h).isSome) :
    HasContract c contracts' e := by
  rw [HasContract, contractsAfter, insertContract]
  rw [contractsAfter, insertContract] at hgrows
  split_ifs with hskip
  · rfl
  · rw [if_neg hskip] at hgrows
    split
    · rename_i b code hcode
      rw [hcode] at hgrows
      apply OrdMap.orInsert_of_isSome
      apply hgrows
      rw [OrdMap.isSome_orInsert]
      simp
    · rfl

theorem foldl_contractsAfter (es : List (Address × Account)) (contracts : OrdMap (ByteArr 32) Bytes) :
    (∀ h, (contracts.get h).isSome → ((es.foldl (contractsAfter c) contracts).get h).isSome) ∧
      ∀ e ∈ es, HasContract c (es.foldl (contractsAfter c) contracts) e := by
  induction es generalizing contracts with
  | nil => exact ⟨fun _ h => h, by simp⟩
  | cons e es ih =>
      obtain ⟨hgrows, hhas⟩ := ih (contractsAfter c contracts e)
      refine ⟨fun h hsome => hgrows h (contractsAfter_grows contracts e h hsome), ?_⟩
      intro e' he'
      rcases List.mem_cons.mp he' with rfl | he'
      · exact hasContract_of_grows e' hgrows
      · exact hhas e' he'

theorem foldl_of_hasContract {es : List (Address × Account)} {contracts : OrdMap (ByteArr 32) Bytes}
    (h : ∀ e ∈ es, HasContract c contracts e) : es.foldl (contractsAfter c) contracts = contracts := by
  induction es with
  | nil => rfl
  | cons e es ih =>
      obtain ⟨he, hrest⟩ := List.forall_mem_cons.mp h
      rw [List.foldl_cons, he]
      exact ih hrest

theorem ext_fields {x y : CacheDb} (haccounts : x.accounts = y.accounts)
    (hcontracts : x.contracts = y.contracts) (hdb : x.db = y.db) : x = y := by
  cases x
  cases y
  simp_all

theorem db_commit (x : CacheDb) (diff : StateDiff) : (x.commit c diff).db = x.db :=
  (foldl_commitAccount diff.entries x).2

theorem commit_twice (x : CacheDb) (diff : StateDiff) :
    (x.commit c diff).commit c diff = x.commit c diff := by
  refine ext_fields ?_ ?_ (db_commit _ diff)
  · apply OrdMap.ext_get
    intro address
    rw [get_commit, get_commit]
    cases diff.get address with
    | none => rfl
    | some account => exact accountAfter_twice _ account
  · have hfirst : (x.commit c diff).contracts = _ := (foldl_commitAccount diff.entries x).1
    have hsecond : ((x.commit c diff).commit c diff).contracts = _ :=
      (foldl_commitAccount diff.entries (x.commit c diff)).1
    rw [hsecond, hfirst]
    exact foldl_of_hasContract (foldl_contractsAfter diff.entries x.contracts).2

end CacheDb

end Kasane.Exec
