import Kasane.Exec.Execute
import Kasane.Precompile.Query

namespace Kasane.Exec

open BigEndian Codec Word Chain
open Precompile (IcpQueryRequest IcpQueryReply IcpQueryContext IcpQueryMode Env CallInputs Context
  InterpreterResult PrecompileAccess kasaneProviderRun)
open Receipt (ReceiptLike)

variable (c : Crypto)

namespace CacheDb

def loadAccount (x : CacheDb) (address : Address) : CacheDb :=
  match x.accounts.get address with
  | some _ => x
  | none =>
      { x with
        accounts := x.accounts.insert address
          (match x.db.basic address with
          | some info => ⟨info, .none, .empty⟩
          | none => ⟨.default c, .notExisting, .empty⟩) }

def loadCode (x : CacheDb) (codeHash : ByteArr 32) : CacheDb :=
  match x.contracts.get codeHash with
  | some _ => x
  | none => { x with contracts := x.contracts.insert codeHash (x.db.codeByHash c codeHash) }

def loadSlot (x : CacheDb) (address : Address) (index : Nat) : CacheDb :=
  let x := x.loadAccount c address
  match x.accounts.get address with
  | none => x
  | some acc =>
      match acc.storage.get index with
      | some _ => x
      | none =>
          if acc.accountState = .storageCleared ∨ acc.accountState = .notExisting then x
          else
            { x with
              accounts := x.accounts.insert address
                { acc with storage := acc.storage.insert index (x.db.storageAt address index) } }

end CacheDb

structure QueryView extends StateView where
  blockHash : Nat → ByteArr 32

-- what a run asked of the store, in order
inductive Load where
  | account (address : Address)
  | code (codeHash : ByteArr 32)
  | slot (address : Address) (index : Nat)
  | blockHash (number : Nat)

structure QueryCache where
  db : CacheDb
  blockHashes : OrdMap Nat (ByteArr 32)

namespace QueryCache

def new (db : RevmStableDb) : QueryCache := ⟨.new c db, .empty⟩

def view (hashes : Nat → ByteArr 32) (x : QueryCache) : QueryView :=
  ⟨x.db.view c, fun number => (x.blockHashes.get number).getD (hashes number)⟩

def load (hashes : Nat → ByteArr 32) (x : QueryCache) : Load → QueryCache
  | .account address => { x with db := x.db.loadAccount c address }
  | .code codeHash => { x with db := x.db.loadCode c codeHash }
  | .slot address index => { x with db := x.db.loadSlot c address index }
  | .blockHash number => { x with blockHashes := x.blockHashes.orInsert number (hashes number) }

-- what is cached stays cached while the store under the cache moves on
def onDb (x : QueryCache) (db : RevmStableDb) : QueryCache := { x with db := { x.db with db := db } }

end QueryCache

structure InspectRun where
  result : Except EvmError (ExecutionResult × StateDiff)
  tripped : Bool
  context : IcpQueryContext
  loads : List Load

abbrev Provider :=
  Nat → IcpQueryContext → Context → CallInputs → Option (InterpreterResult × Context) × IcpQueryContext

structure QueryRevm where
  inspectTx : Provider → IcpQueryContext → QueryView → TxEnv → BlockExecContext → Nat → InspectRun
  inner : CallInputs → Context → Option (InterpreterResult × Context)

inductive QueryExecError where
  | exec (e : ExecError)
  | snapshotChanged
  | externalQuery (request : IcpQueryRequest)

-- what an execution reads beside the accounts, and what is behind the precompiles
structure QueryConfig where
  access : PrecompileAccess
  factory : Address
  updateAllowlist : List Bytes

def QueryConfig.env (config : QueryConfig) (revm : QueryRevm) : Env :=
  ⟨c.keccak256, config.factory, config.access, revm.inner⟩

def executeQueryOn (revm : QueryRevm) (config : QueryConfig) (hashes : Nat → ByteArr 32)
    (cache : QueryCache) (surrounding : IcpQueryContext) (txId : TxId) (tx : TxEnv)
    (ctx : BlockExecContext) (instructionSoftLimit : Option Nat) :
    Except QueryExecError ReceiptLike × List Load :=
  match effectiveGasPrice tx.gasPrice (tx.gasPriorityFee.getD 0) ctx.baseFee with
  | none => (.error (.exec .invalidGasFee), [])
  | some price =>
      let limit := instructionSoftLimit.getD 0
      let run := revm.inspectTx (kasaneProviderRun (config.env c revm) config.updateAllowlist)
        surrounding.enterDetection (cache.view c hashes) tx ctx limit
      if limit ≠ 0 ∧ run.tripped = true then (.error (.exec .instructionBudgetExceeded), run.loads)
      else
        match run.context.pending with
        | some request => (.error (.externalQuery request), run.loads)
        | none =>
            match run.result with
            | .error e => (.error (.exec (mapTxErrorStage e)), run.loads)
            | .ok (result, _) =>
                if validateExecutionResultSizes result.output result.logs = false then
                  (.error (.exec .resultTooLarge), run.loads)
                else (.ok (receiptOf c txId 0 ctx price result), run.loads)

variable {c}

namespace CacheDb

theorem basic_loadAccount (x : CacheDb) (address a : Address) :
    (x.loadAccount c address).basic a = x.basic a := by
  rw [loadAccount]
  split
  · rfl
  · rename_i hnone
    rw [basic, basic, OrdMap.get_insert]
    by_cases ha : a = address
    · subst ha
      rw [if_pos rfl, hnone]
      cases hinfo : x.db.basic a <;> simp
    · rw [if_neg ha]

theorem storageAt_loadAccount (x : CacheDb) (address a : Address) (index : Nat) :
    (x.loadAccount c address).storageAt a index = x.storageAt a index := by
  rw [loadAccount]
  split
  · rfl
  · rename_i hnone
    rw [storageAt, storageAt, OrdMap.get_insert]
    by_cases ha : a = address
    · subst ha
      rw [if_pos rfl, hnone]
      cases hinfo : x.db.basic a <;> simp
    · rw [if_neg ha]

theorem code_loadAccount (x : CacheDb) (address : Address) :
    (x.loadAccount c address).contracts = x.contracts ∧ (x.loadAccount c address).db = x.db := by
  rw [loadAccount]
  split
  · exact ⟨rfl, rfl⟩
  · exact ⟨rfl, rfl⟩

theorem view_loadAccount (x : CacheDb) (address : Address) :
    (x.loadAccount c address).view c = x.view c := by
  obtain ⟨hcontracts, hdb⟩ := code_loadAccount (c := c) x address
  have hcode : (x.loadAccount c address).codeByHash c = x.codeByHash c := by
    funext h
    rw [codeByHash, codeByHash, hcontracts, hdb]
  rw [view, view, hcode]
  congr 1
  · funext a
    exact basic_loadAccount x address a
  · funext a index
    exact storageAt_loadAccount x address a index

theorem view_loadCode (x : CacheDb) (codeHash : ByteArr 32) :
    (x.loadCode c codeHash).view c = x.view c := by
  rw [loadCode]
  split
  · rfl
  · rename_i hnone
    rw [view, view]
    congr 1
    funext h
    rw [codeByHash, codeByHash, OrdMap.get_insert]
    split_ifs with hh
    · rw [hh, hnone]
      rfl
    · rfl

theorem view_loadSlot (x : CacheDb) (address : Address) (index : Nat) :
    (x.loadSlot c address index).view c = x.view c := by
  rw [← view_loadAccount x address, loadSlot]
  generalize x.loadAccount c address = y
  split
  · rfl
  · rename_i acc hacc
    split
    · rfl
    · rename_i hslot
      split_ifs with hstate
      · rfl
      · rw [view, view]
        congr 1
        · funext a
          rw [basic, basic, OrdMap.get_insert]
          split_ifs with ha
          · rw [ha, hacc]
          · rfl
        · funext a j
          rw [storageAt, storageAt, OrdMap.get_insert]
          by_cases ha : a = address
          · subst ha
            rw [if_pos rfl, hacc]
            dsimp only
            rw [OrdMap.get_insert]
            by_cases hj : j = index
            · subst hj
              rw [if_pos rfl, hslot, if_neg hstate]
            · rw [if_neg hj]
          · rw [if_neg ha]

theorem db_loadSlot (x : CacheDb) (address : Address) (index : Nat) :
    (x.loadSlot c address index).db = x.db := by
  rw [loadSlot]
  split
  · exact (code_loadAccount x address).2
  · split
    · exact (code_loadAccount x address).2
    · split_ifs
      · exact (code_loadAccount x address).2
      · exact (code_loadAccount x address).2

theorem db_loadCode (x : CacheDb) (codeHash : ByteArr 32) : (x.loadCode c codeHash).db = x.db := by
  rw [loadCode]
  split
  · rfl
  · rfl

end CacheDb

namespace QueryCache

theorem view_load (hashes : Nat → ByteArr 32) (x : QueryCache) (l : Load) :
    (x.load c hashes l).view c hashes = x.view c hashes ∧ (x.load c hashes l).db.db = x.db.db := by
  cases l with
  | account address =>
      exact ⟨by simp only [view, load, CacheDb.view_loadAccount], (CacheDb.code_loadAccount ..).2⟩
  | code codeHash =>
      exact ⟨by simp only [view, load, CacheDb.view_loadCode], CacheDb.db_loadCode ..⟩
  | slot address index =>
      exact ⟨by simp only [view, load, CacheDb.view_loadSlot], CacheDb.db_loadSlot ..⟩
  | blockHash number =>
      refine ⟨?_, rfl⟩
      have hsame (n : Nat) : ((x.blockHashes.orInsert number (hashes number)).get n).getD (hashes n) =
          (x.blockHashes.get n).getD (hashes n) := by
        rw [OrdMap.orInsert]
        split
        · rfl
        · rename_i hnone
          rw [OrdMap.get_insert]
          split_ifs with hn
          · rw [hn, hnone]
            rfl
          · rfl
      simp only [view, load, hsame]

-- reading through a cache changes nothing that is read later
theorem view_loads (hashes : Nat → ByteArr 32) (loads : List Load) (x : QueryCache) :
    (loads.foldl (load c hashes) x).view c hashes = x.view c hashes ∧
      (loads.foldl (load c hashes) x).db.db = x.db.db := by
  induction loads generalizing x with
  | nil => exact ⟨rfl, rfl⟩
  | cons l loads ih =>
      obtain ⟨hview, hdb⟩ := view_load (c := c) hashes x l
      obtain ⟨hview', hdb'⟩ := ih (x.load c hashes l)
      exact ⟨hview'.trans hview, hdb'.trans hdb⟩

end QueryCache

end Kasane.Exec
