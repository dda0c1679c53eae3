import Kasane.Chain.Tx
import Kasane.Lib.OrdMap
import Mathlib.Data.Prod.Lex

namespace Kasane.Exec

open BigEndian Codec Word Chain

structure AccountInfo where
  balance : Nat
  nonce : Nat
  codeHash : ByteArr 32
  code : Option Bytes
deriving DecidableEq

structure EvmStorageSlot where
  originalValue : Nat
  presentValue : Nat
deriving DecidableEq

structure Account where
  info : AccountInfo
  storage : OrdMap Nat EvmStorageSlot
  touched : Bool
  created : Bool
  selfdestructed : Bool

abbrev StateDiff := OrdMap Address Account

structure AccountVal where
  nonce : Nat
  balance : Nat
  codeHash : ByteArr 32
deriving DecidableEq

structure StorageKey where
  address : Address
  slot : Nat
deriving DecidableEq

instance : LinearOrder StorageKey :=
  LinearOrder.lift' (fun k => toLex (k.address, k.slot)) (by
    rintro ⟨a, b⟩ ⟨a', b'⟩ h
    simpa using h)

structure RevmStableDb where
  accounts : OrdMap Address AccountVal
  storage : OrdMap StorageKey Nat
  codes : OrdMap (ByteArr 32) Bytes

variable (c : Crypto)

def keccakEmpty : ByteArr 32 := c.keccak256 []

def AccountInfo.default : AccountInfo := ⟨0, 0, keccakEmpty c, some []⟩

def AccountInfo.isEmpty (info : AccountInfo) : Bool :=
  decide ((info.codeHash = keccakEmpty c ∨ info.codeHash = zeroArr 32) ∧ info.balance = 0 ∧
    info.nonce = 0)

namespace RevmStableDb

def basic (db : RevmStableDb) (address : Address) : Option AccountInfo :=
  (db.accounts.get address).map (fun val => ⟨val.balance, val.nonce, val.codeHash, none⟩)

def codeByHash (db : RevmStableDb) (codeHash : ByteArr 32) : Bytes :=
  if codeHash = keccakEmpty c then [] else (db.codes.get codeHash).getD []

def storageAt (db : RevmStableDb) (address : Address) (index : Nat) : Nat :=
  (db.storage.get ⟨address, index⟩).getD 0

def selfdestructAddress (db : RevmStableDb) (address : Address) : RevmStableDb where
  codes := match db.accounts.get address with
    | some account => db.codes.remove account.codeHash
    | none => db.codes
  accounts := db.accounts.remove address
  storage := (db.storage.keys.filter (fun k => decide (k.address = address))).foldl OrdMap.remove
    db.storage

def commitSlot (address : Address) (storage : OrdMap StorageKey Nat) (e : Nat × EvmStorageSlot) :
    OrdMap StorageKey Nat :=
  if e.2.originalValue = e.2.presentValue then storage
  else if e.2.presentValue = 0 then storage.remove ⟨address, e.1⟩
  else storage.insert ⟨address, e.1⟩ e.2.presentValue

def commitCode (codes : OrdMap (ByteArr 32) Bytes) (info : AccountInfo) :
    OrdMap (ByteArr 32) Bytes :=
  match info.code with
  | none => codes
  | some [] => codes.remove info.codeHash
  | some code => codes.insert info.codeHash code

def commitAccount (db : RevmStableDb) (e : Address × Account) : RevmStableDb :=
  if e.2.selfdestructed || (e.2.info.isEmpty c && e.2.touched) then db.selfdestructAddress e.1
  else
    { accounts := db.accounts.insert e.1 ⟨e.2.info.nonce, e.2.info.balance, e.2.info.codeHash⟩
      storage := e.2.storage.entries.foldl (commitSlot e.1) db.storage
      codes := commitCode db.codes e.2.info }

def commit (db : RevmStableDb) (changes : StateDiff) : RevmStableDb :=
  changes.entries.foldl (commitAccount c) db

end RevmStableDb

structure StateView where
  basic : Address → Option AccountInfo
  codeByHash : ByteArr 32 → Bytes
  storageAt : Address → Nat → Nat

inductive AccountState where
  | notExisting
  | touched
  | storageCleared
  | none
deriving DecidableEq

structure DbAccount where
  info : AccountInfo
  accountState : AccountState
  storage : OrdMap Nat Nat

def DbAccount.default : DbAccount := ⟨.default c, .none, .empty⟩

structure CacheDb where
  accounts : OrdMap Address DbAccount
  contracts : OrdMap (ByteArr 32) Bytes
  db : RevmStableDb

namespace CacheDb

def new (db : RevmStableDb) : CacheDb where
  accounts := .empty
  contracts := (OrdMap.empty.insert (keccakEmpty c) []).insert (zeroArr 32) []
  db := db

def basic (x : CacheDb) (address : Address) : Option AccountInfo :=
  match x.accounts.get address with
  | some acc => if acc.accountState = .notExisting then none else some acc.info
  | none => x.db.basic address

def codeByHash (x : CacheDb) (codeHash : ByteArr 32) : Bytes :=
  (x.contracts.get codeHash).getD (x.db.codeByHash c codeHash)

def storageAt (x : CacheDb) (address : Address) (index : Nat) : Nat :=
  match x.accounts.get address with
  | some acc =>
      match acc.storage.get index with
      | some value => value
      | none =>
          if acc.accountState = .storageCleared ∨ acc.accountState = .notExisting then 0
          else x.db.storageAt address index
  | none => if (x.db.basic address).isSome then x.db.storageAt address index else 0

def view (x : CacheDb) : StateView := ⟨x.basic, x.codeByHash c, x.storageAt⟩

def contractHash (info : AccountInfo) : ByteArr 32 :=
  match info.code with
  | some (b :: code) =>
      if info.codeHash = keccakEmpty c then c.keccak256 (b :: code) else info.codeHash
  | _ => info.codeHash

def insertContract (contracts : OrdMap (ByteArr 32) Bytes) (info : AccountInfo) :
    OrdMap (ByteArr 32) Bytes :=
  match info.code with
  | some (b :: code) => contracts.orInsert (contractHash c info) (b :: code)
  | _ => contracts

def insertedInfo (info : AccountInfo) : AccountInfo :=
  { info with
    codeHash := if contractHash c info = zeroArr 32 then keccakEmpty c else contractHash c info }

def presentStorage (storage : OrdMap Nat Nat) (slots : OrdMap Nat EvmStorageSlot) :
    OrdMap Nat Nat :=
  slots.entries.foldl (fun m e => m.insert e.1 e.2.presentValue) storage

def updateAccount (old : DbAccount) (account : Account) : DbAccount :=
  if account.selfdestructed then ⟨.default c, .notExisting, .empty⟩
  else if account.created then
    ⟨insertedInfo c account.info, .storageCleared, presentStorage .empty account.storage⟩
  else
    ⟨insertedInfo c account.info,
      if old.accountState = .storageCleared then .storageCleared else .touched,
      presentStorage old.storage account.storage⟩

def commitAccount (x : CacheDb) (e : Address × Account) : CacheDb :=
  if e.2.touched = false then x
  else
    { x with
      accounts := x.accounts.insert e.1
        (updateAccount c ((x.accounts.get e.1).getD (.default c)) e.2)
      contracts := if e.2.selfdestructed then x.contracts else insertContract c x.contracts e.2.info }

def commit (x : CacheDb) (changes : StateDiff) : CacheDb :=
  changes.entries.foldl (commitAccount c) x

end CacheDb

end Kasane.Exec
