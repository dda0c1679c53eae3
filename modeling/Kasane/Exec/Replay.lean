import Kasane.Chain.PendingIndexes
import Kasane.Chain.BlockRecords
import Kasane.Exec.Execute

namespace Kasane.Chain

open BigEndian Codec Word

variable {W : Type}

def isolate (evm : Evm W) : Evm W :=
  { evm with
    execute := fun cache id index tx ctx limit =>
      match evm.execute cache id index tx ctx limit with
      | (.ok r, cache') => (.ok r, cache')
      | (.error e, _) => (.error e, cache) }

theorem isolate_ok {evm : Evm W} {cache cache' : evm.Cache} {id : TxId} {index : Nat} {tx : TxEnv}
    {ctx : BlockExecContext} {limit : Option Nat} {r : ExecOutcome × evm.Diff}
    (h : evm.execute cache id index tx ctx limit = (.ok r, cache')) :
    (isolate evm).execute cache id index tx ctx limit = (.ok r, cache') := by
  dsimp only [isolate]
  rw [h]

theorem isolate_error {evm : Evm W} {cache cache' : evm.Cache} {id : TxId} {index : Nat}
    {tx : TxEnv} {ctx : BlockExecContext} {limit : Option Nat} {e : ExecError}
    (h : evm.execute cache id index tx ctx limit = (.error e, cache')) :
    (isolate evm).execute cache id index tx ctx limit = (.error e, cache) := by
  dsimp only [isolate]
  rw [h]

abbrev ExecState.isolated {evm : Evm W} (x : ExecState evm) : ExecState (isolate evm) :=
  ⟨x.cache, x.tick, x.gasUsed, x.drops, x.diffs, x.included⟩

def blockContext (env : CallEnv) (s : StableState W) : BlockExecContext :=
  ⟨saturatingAdd u64Max s.head.number 1, max (saturatingAdd u64Max s.head.timestamp 1) env.now,
    s.chainState.baseFee, s.chainState.blockGasLimit⟩

variable (c : Crypto)

def prepareBlock (env : CallEnv) (maxTxs : Nat) (s : StableState W) : PrepareState W :=
  prepareCandidates c env (blockContext env s) s.chainState.updateInstructionSoftLimit
    (env.counter 0) (selectReadyCandidates c s s.chainState.baseFee maxTxs) ⟨s, 1, [], 0, .empty⟩

def stagedTxs (env : CallEnv) (maxTxs : Nat) (s : StableState W) : List PreparedTx :=
  PreparedItem.txs (prepareBlock c env maxTxs s).prepared

def executeBlock (evm : Evm W) (env : CallEnv) (maxTxs : Nat) (s : StableState W) :
    Except ChainError (ExecState evm) :=
  executeStaged evm env (blockContext env s) s.chainState.updateInstructionSoftLimit (env.counter 0)
    (stagedTxs c env maxTxs s)
    ⟨evm.newCache s.world, (prepareBlock c env maxTxs s).tick, 0,
      PreparedItem.drops (prepareBlock c env maxTxs s).prepared, [], []⟩

variable {c}

structure Produces (c : Crypto) (evm : Evm W) (env : CallEnv) (maxTxs : Nat) (s t : StableState W)
    (outcome : ProduceBlockOutcome) (x : ExecState evm) : Prop where
  executed : executeBlock c evm env maxTxs s = .ok x
  txIds : outcome.block.txIds = x.included.map StagedIncluded.txId
  committed : ∃ root world, evm.prepare s.world x.diffs (blockContext env s).blockNumber
      s.head.blockHash (blockContext env s).timestamp = (.ok root, world) ∧
    commitBlock c evm env (blockContext env s) x.gasUsed outcome.block x.drops x.included
      { (prepareBlock c env maxTxs s).state with
        world := evm.applyRoot (x.diffs.foldl evm.commitDiff world) root } = some t

theorem world_prepareBlock (env : CallEnv) (maxTxs : Nat) (s : StableState W) :
    (prepareBlock c env maxTxs s).state.world = s.world := by
  obtain ⟨⟨m, hstate⟩, -⟩ := prepares_candidates (c := c) env (blockContext env s)
    s.chainState.updateInstructionSoftLimit (env.counter 0)
    (selectReadyCandidates c s s.chainState.baseFee maxTxs) ⟨s, 1, [], 0, .empty⟩
  rw [prepareBlock, hstate]

theorem produceBlock_ok {evm : Evm W} {env : CallEnv} {maxTxs : Nat} {s t : StableState W}
    {outcome : ProduceBlockOutcome}
    (hrun : produceBlock c evm env maxTxs s = some (.ok outcome, t)) :
    ∃ x, Produces c evm env maxTxs s t outcome x := by
  have hworld := world_prepareBlock (c := c) env maxTxs s
  have hexec : executeBlock c evm env maxTxs s = executeStaged evm env (blockContext env s)
      s.chainState.updateInstructionSoftLimit (env.counter 0) (stagedTxs c env maxTxs s)
      ⟨evm.newCache (prepareBlock c env maxTxs s).state.world, (prepareBlock c env maxTxs s).tick, 0,
        PreparedItem.drops (prepareBlock c env maxTxs s).prepared, [], []⟩ := by
    rw [hworld, executeBlock]
  rw [produceBlock] at hrun
  split_ifs at hrun with hmax
  · exact absurd (Prod.mk.inj (Option.some.inj hrun)).1 (by simp)
  · dsimp only at hrun
    split_ifs at hrun with hempty hnone
    · exact absurd (Prod.mk.inj (Option.some.inj hrun)).1 (by simp)
    · exact absurd (Prod.mk.inj (Option.some.inj hrun)).1 (by simp)
    · split at hrun
      · exact absurd (Prod.mk.inj (Option.some.inj hrun)).1 (by simp)
      · rename_i x hx
        split_ifs at hrun with hincluded
        · exact absurd (Prod.mk.inj (Option.some.inj hrun)).1 (by simp)
        · split at hrun
          · exact absurd (Prod.mk.inj (Option.some.inj hrun)).1 (by simp)
          · rename_i root world hprepare
            obtain ⟨u, hcommit, heq⟩ := Option.map_eq_some_iff.mp hrun
            obtain ⟨hok, rfl⟩ := Prod.mk.inj heq
            obtain rfl := Except.ok.inj hok
            refine ⟨x, hexec.trans hx, rfl, root, world, ?_, hcommit⟩
            rw [← hworld]
            exact hprepare

theorem drops_executeStaged {evm : Evm W} {env : CallEnv} {ctx : BlockExecContext}
    {softLimit start : Nat} {txs : List PreparedTx} {x x' : ExecState evm}
    (h : executeStaged evm env ctx softLimit start txs x = .ok x') :
    ∀ d ∈ x.drops, d ∈ x'.drops := by
  induction txs generalizing x with
  | nil =>
      obtain rfl := Except.ok.inj h
      exact fun _ hd => hd
  | cons tx txs ih =>
      rw [executeStaged] at h
      dsimp only at h
      split_ifs at h
      · obtain rfl := Except.ok.inj h
        exact fun _ hd => hd
      · obtain rfl := Except.ok.inj h
        exact fun _ hd => hd
      · exact fun d hd => ih h d (List.mem_append_left _ hd)
      · split at h
        · exact fun d hd => ih h d (List.mem_append_left _ hd)
        · split_ifs at h
          · obtain rfl := Except.ok.inj h
            exact fun _ hd => hd
          · exact fun d hd => ih h d hd

theorem dropCode_resultTooLarge {e : ExecError} (h : e.dropCode = .resultTooLarge) :
    e = .resultTooLarge := by
  cases e <;> simp_all [ExecError.dropCode]

theorem executeStaged_of_isolate {evm : Evm W}
    (hkeep : ∀ cache id index tx ctx limit e cache',
      evm.execute cache id index tx ctx limit = (.error e, cache') → e ≠ .resultTooLarge →
        cache' = cache)
    {env : CallEnv} {ctx : BlockExecContext} {softLimit start : Nat} {txs : List PreparedTx}
    {x : ExecState evm} {y : ExecState (isolate evm)}
    (h : executeStaged (isolate evm) env ctx softLimit start txs x.isolated = .ok y)
    (hclean : ∀ d ∈ y.drops, d.code ≠ .resultTooLarge) :
    ∃ x', executeStaged evm env ctx softLimit start txs x = .ok x' ∧ x'.isolated = y := by
  induction txs generalizing x with
  | nil => exact ⟨x, rfl, Except.ok.inj h⟩
  | cons tx txs ih =>
      rw [executeStaged] at h ⊢
      dsimp only [ExecState.isolated] at h ⊢
      by_cases hstop : shouldStopExecution x.gasUsed ctx.blockGasLimit softLimit start
          (env.counter x.tick) = true
      · rw [if_pos hstop] at h ⊢
        exact ⟨x, rfl, Except.ok.inj h⟩
      rw [if_neg hstop] at h ⊢
      by_cases hbudget : remainingInstructionBudget softLimit start (env.counter x.tick) = some 0
      · rw [if_pos hbudget] at h ⊢
        exact ⟨x, rfl, Except.ok.inj h⟩
      rw [if_neg hbudget] at h ⊢
      by_cases hgas : txFitsBlockGas x.gasUsed ctx.blockGasLimit tx.txEnv.gasLimit = false
      · rw [if_pos hgas] at h ⊢
        exact ih h
      rw [if_neg hgas] at h ⊢
      by_cases hindex : x.included.length > u32Max
      · rw [if_pos hindex] at h
        exact absurd h (by simp)
      rw [if_neg hindex] at h ⊢
      dsimp only [isolate] at h
      generalize hone : evm.execute x.cache tx.txId x.included.length tx.txEnv ctx
        (remainingInstructionBudget softLimit start (env.counter x.tick)) = one at h ⊢
      obtain ⟨r, cache'⟩ := one
      cases r with
      | error e =>
          dsimp only at h ⊢
          have he : e ≠ .resultTooLarge := by
            rintro rfl
            refine hclean (queuedDrop tx .resultTooLarge) ?_ rfl
            exact drops_executeStaged h _ (List.mem_append_right _ (List.mem_singleton_self _))
          obtain rfl := hkeep _ _ _ _ _ _ _ _ hone he
          exact ih h
      | ok r =>
          obtain ⟨outcome, diff⟩ := r
          dsimp only at h ⊢
          by_cases hfull : shouldStopExecution
              (saturatingAdd u64Max x.gasUsed outcome.receipt.gasUsed.toNat) ctx.blockGasLimit
              softLimit start (env.counter (x.tick + 2 - 1)) = true
          · rw [if_pos hfull] at h ⊢
            exact ⟨_, rfl, Except.ok.inj h⟩
          · rw [if_neg hfull] at h ⊢
            exact ih h

end Kasane.Chain

namespace Kasane.Exec

open BigEndian Codec Word Chain

structure Executed where
  tx : PreparedTx
  before : CacheDb
  outcome : ExecOutcome
  diff : StateDiff

inductive Replays (c : Crypto) (revm : Revm) (ctx : BlockExecContext) (parent : RevmStableDb) :
    List Executed → CacheDb → Prop
  | start : Replays c revm ctx parent [] (.new c parent)
  | next {items : List Executed} {db : CacheDb} {tx : PreparedTx} {outcome : ExecOutcome}
      {diff : StateDiff} (prior : Replays c revm ctx parent items db)
      (executed : (executeTxOn c revm db tx.txId items.length tx.txEnv ctx none).1 =
        .ok (outcome, diff)) :
      Replays c revm ctx parent (items ++ [⟨tx, db, outcome, diff⟩]) (db.commit c diff)

def Executed.staged (item : Executed) : StagedIncluded :=
  ⟨item.tx.txId, item.outcome, item.tx.txEnv.caller, item.tx.txEnv.nonce⟩

variable {c : Crypto} {revm : Revm} {T : Type} {trie : TrieCommit T}

structure Stages (ctx : BlockExecContext) (parent : RevmStableDb)
    (x : ExecState (isolate (evm c revm trie))) (items : List Executed) : Prop where
  replays : Replays c revm ctx parent items x.cache
  diffs : x.diffs = items.map Executed.diff
  included : x.included = items.map Executed.staged

theorem Stages.of_eq {ctx : BlockExecContext} {parent : RevmStableDb}
    {x y : ExecState (isolate (evm c revm trie))} {items : List Executed}
    (h : Stages ctx parent x items) (hcache : y.cache = x.cache) (hdiffs : y.diffs = x.diffs)
    (hincluded : y.included = x.included) : Stages ctx parent y items :=
  ⟨hcache ▸ h.replays, hdiffs.trans h.diffs, hincluded.trans h.included⟩

theorem stages_executed {ctx : BlockExecContext} {parent : RevmStableDb}
    {x y : ExecState (isolate (evm c revm trie))} {items : List Executed} {tx : PreparedTx}
    {limit : Option Nat} {outcome : ExecOutcome} {diff : StateDiff} {cache : CacheDb}
    (h : Stages ctx parent x items)
    (hexec : executeTxOn c revm x.cache tx.txId x.included.length tx.txEnv ctx limit =
      (.ok (outcome, diff), cache))
    (hcache : y.cache = cache.commit c diff) (hdiffs : y.diffs = List.append x.diffs [diff])
    (hincluded : y.included =
      x.included ++ [⟨tx.txId, outcome, tx.txEnv.caller, tx.txEnv.nonce⟩]) :
    Stages ctx parent y (items ++ [⟨tx, x.cache, outcome, diff⟩]) := by
  obtain ⟨rfl, price, result, state, hdone⟩ := executeTxOn_ok c hexec
  have hlen : x.included.length = items.length := by rw [h.included, List.length_map]
  rw [hlen] at hdone
  have hnext := Replays.next h.replays (executeTxOn_of_executes c hdone)
  have honce : y.cache = CacheDb.commit c x.cache diff :=
    hcache.trans (CacheDb.commit_twice _ diff)
  refine ⟨?_, ?_, ?_⟩
  · exact honce.symm ▸ hnext
  · rw [hdiffs, h.diffs, List.map_append]
    rfl
  · rw [hincluded, h.included, List.map_append]
    rfl

theorem stages_executeStaged {env : CallEnv} {ctx : BlockExecContext} {parent : RevmStableDb}
    {softLimit start : Nat} {txs : List PreparedTx} {x x' : ExecState (isolate (evm c revm trie))}
    {items : List Executed} (hx : Stages ctx parent x items)
    (h : executeStaged (isolate (evm c revm trie)) env ctx softLimit start txs x = .ok x') :
    ∃ more, Stages ctx parent x' (items ++ more) ∧ (more.map Executed.tx).Sublist txs := by
  induction txs generalizing x items with
  | nil =>
      obtain rfl := Except.ok.inj h
      exact ⟨[], by rwa [List.append_nil], .refl _⟩
  | cons tx txs ih =>
      have hskip {y : ExecState (isolate (evm c revm trie))}
          (hrest : executeStaged (isolate (evm c revm trie)) env ctx softLimit start txs y = .ok x')
          (hy : Stages ctx parent y items) :
          ∃ more, Stages ctx parent x' (items ++ more) ∧
            (more.map Executed.tx).Sublist (tx :: txs) := by
        obtain ⟨more, hmore, hsub⟩ := ih hy hrest
        exact ⟨more, hmore, hsub.cons tx⟩
      have hstop {y : ExecState (isolate (evm c revm trie))} (hy : Stages ctx parent y items)
          (heq : (Except.ok y : Except ChainError _) = .ok x') :
          ∃ more, Stages ctx parent x' (items ++ more) ∧
            (more.map Executed.tx).Sublist (tx :: txs) := by
        obtain rfl := Except.ok.inj heq
        exact ⟨[], by rwa [List.append_nil], List.nil_sublist _⟩
      rw [executeStaged] at h
      dsimp only at h
      split_ifs at h with h₁ h₂ h₃ h₄
      · exact hstop hx h
      · exact hstop hx h
      · exact hskip h (hx.of_eq rfl rfl rfl)
      · rcases hone : (evm c revm trie).execute x.cache tx.txId x.included.length tx.txEnv ctx
          (remainingInstructionBudget softLimit start (env.counter x.tick)) with ⟨r, cache'⟩
        cases r with
        | error e =>
            rw [isolate_error hone] at h
            exact hskip h (hx.of_eq rfl rfl rfl)
        | ok r =>
            obtain ⟨outcome, diff⟩ := r
            rw [isolate_ok hone] at h
            dsimp only at h
            split_ifs at h with hfull
            · obtain rfl := Except.ok.inj h
              exact ⟨[⟨tx, x.cache, outcome, diff⟩], stages_executed hx hone rfl rfl rfl,
                (List.nil_sublist txs).cons_cons tx⟩
            · obtain ⟨more, hmore, hsub⟩ := ih (stages_executed hx hone rfl rfl rfl) h
              refine ⟨⟨tx, x.cache, outcome, diff⟩ :: more, ?_, hsub.cons_cons tx⟩
              rwa [List.append_assoc] at hmore

def NoneOversized (c : Crypto) (revm : Revm) (trie : TrieCommit T) (env : CallEnv) (maxTxs : Nat)
    (s : StableState (World T)) : Prop :=
  ∃ y, executeBlock c (isolate (evm c revm trie)) env maxTxs s = .ok y ∧
    ∀ d ∈ y.drops, d.code ≠ .resultTooLarge

structure BlockReplays (c : Crypto) (revm : Revm) (env : CallEnv) (maxTxs : Nat)
    (s t : StableState (World T)) (block : BlockData) (items : List Executed) : Prop where
  txIds : block.txIds = items.map (fun item => item.tx.txId)
  queued : (items.map Executed.tx).Sublist (stagedTxs c env maxTxs s)
  replays : ∃ db, Replays c revm (blockContext env s) s.world.db items db
  committed : t.world.db = (items.map Executed.diff).foldl (RevmStableDb.commit c) s.world.db
  receipts : ∀ item ∈ items, ∃ ptr, t.receipts.get item.tx.txId = some ptr ∧
    t.blobStore.read ptr = .ok (Receipt.toBytes item.outcome.receipt)

theorem recorded_produces {W : Type} {evm : Evm W} {env : CallEnv} {maxTxs : Nat}
    {s t : StableState W} {p : Pool} {outcome : ProduceBlockOutcome} {x : ExecState evm}
    {counting : Prop} (h : Consistent c counting s p)
    (hx : Produces c evm env maxTxs s t outcome x) :
    ∃ root world, evm.prepare s.world x.diffs (blockContext env s).blockNumber
        s.head.blockHash (blockContext env s).timestamp = (.ok root, world) ∧
      t.world = evm.applyRoot (x.diffs.foldl evm.commitDiff world) root ∧
      ∀ staged ∈ x.included, ∃ ptr, t.receipts.get staged.txId = some ptr ∧
        t.blobStore.read ptr = .ok (Receipt.toBytes staged.outcome.receipt) := by
  obtain ⟨root, world, hprepare, hcommit⟩ := hx.committed
  have hprepared := prepared_of_select (c := c) h env (blockContext env s)
    s.chainState.updateInstructionSoftLimit (env.counter 0) s.chainState.baseFee maxTxs
  have hpending := hprepared.pending.subperm (executes_staged hx.executed).ids
  have hconsistent : Consistent c counting
      { (prepareBlock c env maxTxs s).state with
        world := evm.applyRoot (x.diffs.foldl evm.commitDiff world) root } p :=
    ⟨hprepared.consistent.indexed, hprepared.consistent.backed, hprepared.consistent.archived,
      hprepared.consistent.bounded, hprepared.consistent.counted⟩
  obtain ⟨hworld, hreceipt⟩ := recorded_commitBlock hconsistent hpending hcommit
  exact ⟨root, world, hprepare, hworld, hreceipt⟩

theorem db_foldl_commitDiff (revm : Revm) (trie : TrieCommit T) (diffs : List StateDiff) (w : World T) :
    (diffs.foldl (evm c revm trie).commitDiff w).db = diffs.foldl (RevmStableDb.commit c) w.db := by
  induction diffs generalizing w with
  | nil => rfl
  | cons diff diffs ih => exact ih _

theorem executeBlock_of_noneOversized {env : CallEnv} {maxTxs : Nat} {s : StableState (World T)}
    {x : ExecState (evm c revm trie)} (h : NoneOversized c revm trie env maxTxs s)
    (hx : executeBlock c (evm c revm trie) env maxTxs s = .ok x) :
    executeBlock c (isolate (evm c revm trie)) env maxTxs s = .ok x.isolated := by
  obtain ⟨y, hy, hclean⟩ := h
  have hkeep : ∀ cache id index tx ctx limit e cache',
      (evm c revm trie).execute cache id index tx ctx limit = (.error e, cache') →
        e ≠ .resultTooLarge → cache' = cache :=
    fun _ _ _ _ _ _ _ _ herror he => executeTxOn_error c herror he
  obtain ⟨x', hx', rfl⟩ := executeStaged_of_isolate hkeep (x := ⟨.new c s.world.db,
    (prepareBlock c env maxTxs s).tick, 0, PreparedItem.drops (prepareBlock c env maxTxs s).prepared,
    [], []⟩) hy hclean
  obtain rfl := Except.ok.inj (hx.symm.trans hx')
  exact hy

theorem replays_of_run {world : World T} {s t : StableState (World T)} {env : CallEnv}
    {maxTxs : Nat} {outcome : ProduceBlockOutcome}
    (run : ChainRun c (evm c revm trie) (fun _ _ => True) (.init world) s)
    (produced : produceBlock c (evm c revm trie) env maxTxs s = some (.ok outcome, t))
    (none_oversized : NoneOversized c revm trie env maxTxs s) :
    ∃ items, BlockReplays c revm env maxTxs s t outcome.block items := by
  obtain ⟨p, hconsistent⟩ := consistent_run False (fun hfalse => hfalse.elim) run
  obtain ⟨x, hx⟩ := produceBlock_ok produced
  obtain ⟨root, w, hprepare, hworld, hreceipts⟩ := recorded_produces hconsistent hx
  have hisolated := executeBlock_of_noneOversized none_oversized hx.executed
  have hstart : @Stages c revm T trie (blockContext env s) s.world.db
      ⟨.new c s.world.db, (prepareBlock c env maxTxs s).tick, 0,
        PreparedItem.drops (prepareBlock c env maxTxs s).prepared, [], []⟩ [] := ⟨.start, rfl, rfl⟩
  obtain ⟨items, hitems, hsub⟩ := stages_executeStaged hstart hisolated
  rw [List.nil_append] at hitems
  have hdiffs : x.diffs = items.map Executed.diff := hitems.diffs
  have hincluded : x.included = items.map Executed.staged := hitems.included
  refine ⟨items, ?_, hsub, ⟨_, hitems.replays⟩, ?_, ?_⟩
  · rw [hx.txIds, hincluded, List.map_map]
    rfl
  · have hw : w.db = s.world.db := (congrArg World.db (Prod.mk.inj hprepare).2).symm
    rw [hworld]
    refine Eq.trans (db_foldl_commitDiff (c := c) revm trie x.diffs w) ?_
    rw [hw, hdiffs]
  · intro item hitem
    apply hreceipts item.staged
    rw [hincluded]
    exact List.mem_map_of_mem hitem

theorem block_replays_included {world : World T} {s t : StableState (World T)} {env : CallEnv}
    {maxTxs : Nat} {outcome : ProduceBlockOutcome}
    (run : ChainRun c (evm c revm trie) (fun _ _ => True) (.init world) s)
    (produced : produceBlock c (evm c revm trie) env maxTxs s = some (.ok outcome, t))
    (none_oversized : NoneOversized c revm trie env maxTxs s) :
    ∃ items, BlockReplays c revm env maxTxs s t outcome.block items :=
  replays_of_run run produced none_oversized

def sampleTrie : TrieCommit Unit where
  Root := Unit
  prepare := fun _ _ _ _ _ _ => (.ok (), ())
  stateRoot := fun _ => zeroArr 32
  apply := fun _ _ => ()

def sampleAddress (b : UInt8) : Address := lastByteArr 20 [b]

def balanceIn (view : StateView) (address : Address) : Nat :=
  ((view.basic address).map AccountInfo.balance).getD 0

def creditDiff (view : StateView) (address : Address) (amount : Nat) : StateDiff :=
  OrdMap.empty.insert address
    ⟨⟨balanceIn view address + amount, 0, zeroArr 32, none⟩, .empty, true, false, false⟩

def sampleLog : Receipt.LogEntry := ⟨sampleAddress 9, [], []⟩

def loggingRevm : Revm where
  inspectTx := fun view tx _ =>
    if tx.caller = sampleAddress 1 then
      .ok (.success 21000 (.call []) (List.replicate 65 sampleLog), creditDiff view (sampleAddress 9) 7)
    else .ok (.success 21000 (.call []) [], creditDiff view (sampleAddress 9) 1)
  exceeds := fun _ _ _ _ => false
  pendingQuery := fun _ _ _ => false
  traces := fun _ _ _ _ => none

def emptyWorld : World Unit := ⟨⟨.empty, .empty, .empty⟩, ()⟩

def submitBytes (revm : Revm) (bytes : Bytes) (s : StableState (World Unit)) :
    StableState (World Unit) :=
  (submitTx sampleCrypto (evm sampleCrypto revm sampleTrie) 0 .ethSigned bytes samplePrincipal s).2

def queueOf (revm : Revm) (bytes : List Bytes) : StableState (World Unit) :=
  bytes.foldl (fun s b => submitBytes revm b s) (.init emptyWorld)

theorem run_queueOf (revm : Revm) (bytes : List Bytes) :
    ChainRun sampleCrypto (evm sampleCrypto revm sampleTrie) (fun _ _ => True) (.init emptyWorld)
      (queueOf revm bytes) := by
  have step (bytes : List Bytes) (s : StableState (World Unit))
      (run : ChainRun sampleCrypto (evm sampleCrypto revm sampleTrie) (fun _ _ => True)
        (.init emptyWorld) s) :
      ChainRun sampleCrypto (evm sampleCrypto revm sampleTrie) (fun _ _ => True) (.init emptyWorld)
        (bytes.foldl (fun s b => submitBytes revm b s) s) := by
    induction bytes generalizing s with
    | nil => exact run
    | cons b bytes ih => exact ih _ (run.step trivial (.submitTx 0 b samplePrincipal s))
  exact step bytes _ .start

theorem selectTopK_insertionSort (candidates : List ReadyCandidate) (maxTxs : Nat) :
    selectTopKReadyCandidates candidates maxTxs =
      if maxTxs = 0 then []
      else ((candidates.foldl (pushTopKCandidate maxTxs) []).insertionSort (fun a b => b ≤ a)).map
        ReadyCandidate.txId := by
  rw [selectTopKReadyCandidates,
    List.mergeSort_eq_insertionSort (fun a b : ReadyCandidate => b ≤ a)]

theorem selectReady_insertionSort {s : StableState (World Unit)} {i : List TxId}
    (h : (((s.readyQueue.entries.take readyCandidateLimit).map (fun e =>
      readyCandidate sampleCrypto s s.chainState.baseFee e.1 e.2)).foldl (pushTopKCandidate 2) []
        |>.insertionSort (fun a b => b ≤ a)).map ReadyCandidate.txId = i) :
    selectReadyCandidates sampleCrypto s s.chainState.baseFee 2 = i := by
  rw [selectReadyCandidates, selectTopK_insertionSort]
  exact h

def checkBlock (check : ProduceBlockOutcome → StableState (World Unit) → Bool) :
    Option (Except ChainError ProduceBlockOutcome × StableState (World Unit)) → Bool
  | some (.ok outcome, t) => check outcome t
  | _ => false

theorem produced_of_check
    {r : Option (Except ChainError ProduceBlockOutcome × StableState (World Unit))}
    (check : ProduceBlockOutcome → StableState (World Unit) → Bool)
    (h : checkBlock check r = true) :
    ∃ outcome t, r = some (.ok outcome, t) ∧ check outcome t = true := by
  rw [checkBlock.eq_def] at h
  split at h
  · exact ⟨_, _, rfl, h⟩
  · exact absurd h (by simp)

def cleanDrops {evm : Evm (World Unit)} : Except ChainError (ExecState evm) → Bool
  | .ok y => y.drops.all (fun d => decide (d.code ≠ .resultTooLarge))
  | .error _ => false

theorem noneOversized_of_check {maxTxs : Nat} {s : StableState (World Unit)}
    (h : cleanDrops (executeBlock c (isolate (evm c revm sampleTrie)) sampleEnv maxTxs s) = true) :
    NoneOversized c revm sampleTrie sampleEnv maxTxs s := by
  cases hy : executeBlock c (isolate (evm c revm sampleTrie)) sampleEnv maxTxs s with
  | error e =>
      rw [hy] at h
      exact absurd h (by simp [cleanDrops])
  | ok y =>
      rw [hy] at h
      exact ⟨y, hy, fun d hd => of_decide_eq_true (List.all_eq_true.mp h d hd)⟩

theorem loggingRevm_replayed :
    ∃ outcome t items, produceBlock sampleCrypto (evm sampleCrypto loggingRevm sampleTrie) sampleEnv 2
        (queueOf loggingRevm [[2], [5]]) = some (.ok outcome, t) ∧
      outcome.block.txIds.length = 2 ∧
      BlockReplays sampleCrypto loggingRevm sampleEnv 2 (queueOf loggingRevm [[2], [5]]) t
        outcome.block items := by
  have hselect := selectReady_insertionSort (s := queueOf loggingRevm [[2], [5]])
    (i := [lastByteArr 32 [2], lastByteArr 32 [5]]) (by decide +kernel)
  obtain ⟨outcome, t, hproduced, hcheck⟩ := produced_of_check
    (r := produceBlock sampleCrypto (evm sampleCrypto loggingRevm sampleTrie) sampleEnv 2
      (queueOf loggingRevm [[2], [5]]))
    (fun outcome _ => decide (outcome.block.txIds.length = 2))
    (by rw [produceBlock]; dsimp only; rw [hselect]; decide +kernel)
  have hclean : NoneOversized sampleCrypto loggingRevm sampleTrie sampleEnv 2
      (queueOf loggingRevm [[2], [5]]) := by
    apply noneOversized_of_check
    rw [executeBlock, stagedTxs, prepareBlock, hselect]
    decide +kernel
  obtain ⟨items, hitems⟩ := block_replays_included (run_queueOf loggingRevm [[2], [5]]) hproduced
    hclean
  exact ⟨outcome, t, items, hproduced, of_decide_eq_true hcheck, hitems⟩

theorem replays_singleton {ctx : BlockExecContext} {parent : RevmStableDb} {item : Executed}
    {db : CacheDb} (h : Replays c revm ctx parent [item] db) :
    item.before = .new c parent ∧
      (executeTxOn c revm (.new c parent) item.tx.txId 0 item.tx.txEnv ctx none).1 =
        .ok (item.outcome, item.diff) := by
  generalize hl : [item] = l at h
  cases h with
  | start => exact absurd hl (by simp)
  | @next items db tx outcome diff prior executed =>
      cases prior with
      | start =>
          obtain rfl := List.head_eq_of_cons_eq hl
          exact ⟨rfl, executed⟩
      | next _ _ => exact absurd (congrArg List.length hl) (by simp)

theorem diff_of_loggingRevm {db : CacheDb} {txId : TxId} {index : Nat} {tx : TxEnv}
    {ctx : BlockExecContext} {outcome : ExecOutcome} {diff : StateDiff}
    (h : (executeTxOn c loggingRevm db txId index tx ctx none).1 = .ok (outcome, diff)) :
    diff = addBaseFeePortionToRecipient c db.db (creditDiff (db.view c) (sampleAddress 9) 1) 21000
      ctx.baseFee := by
  obtain ⟨-, price, result, state, hdone⟩ := executeTxOn_ok c (Prod.ext h rfl)
  have hinspect := hdone.inspected
  simp only [loggingRevm] at hinspect
  split_ifs at hinspect with hcaller
  · obtain ⟨rfl, -⟩ := Prod.mk.inj (Except.ok.inj hinspect)
    exact absurd hdone.sized (by decide)
  · obtain ⟨rfl, rfl⟩ := Prod.mk.inj (Except.ok.inj hinspect)
    exact hdone.patched

theorem loggingRevm_not_replayed :
    ∃ outcome t, ChainRun sampleCrypto (evm sampleCrypto loggingRevm sampleTrie) (fun _ _ => True)
        (.init emptyWorld) (queueOf loggingRevm [[1], [2]]) ∧
      produceBlock sampleCrypto (evm sampleCrypto loggingRevm sampleTrie) sampleEnv 2
        (queueOf loggingRevm [[1], [2]]) = some (.ok outcome, t) ∧
      ¬ ∃ items, BlockReplays sampleCrypto loggingRevm sampleEnv 2 (queueOf loggingRevm [[1], [2]]) t
        outcome.block items := by
  have hselect := selectReady_insertionSort (s := queueOf loggingRevm [[1], [2]])
    (i := [lastByteArr 32 [1], lastByteArr 32 [2]]) (by decide +kernel)
  obtain ⟨outcome, t, hproduced, hcheck⟩ := produced_of_check
    (r := produceBlock sampleCrypto (evm sampleCrypto loggingRevm sampleTrie) sampleEnv 2
      (queueOf loggingRevm [[1], [2]]))
    (fun outcome t => decide (outcome.block.txIds.length = 1) &&
      decide ((t.world.db.accounts.get (sampleAddress 9)).map AccountVal.balance = some 8))
    (by rw [produceBlock]; dsimp only; rw [hselect]; decide +kernel)
  obtain ⟨hlen, hbalance⟩ := Bool.and_eq_true_iff.mp hcheck
  refine ⟨outcome, t, run_queueOf loggingRevm [[1], [2]], hproduced, ?_⟩
  rintro ⟨items, hitems⟩
  have hone : items.length = 1 := by
    rw [← List.length_map (fun item : Executed => item.tx.txId), ← hitems.txIds]
    exact of_decide_eq_true hlen
  obtain ⟨item, rfl⟩ := List.length_eq_one_iff.mp hone
  obtain ⟨db, hreplays⟩ := hitems.replays
  have hdiff := diff_of_loggingRevm (replays_singleton hreplays).2
  have hcommitted := hitems.committed
  rw [List.map_singleton, List.foldl_cons, List.foldl_nil, hdiff] at hcommitted
  have hafter := of_decide_eq_true hbalance
  rw [hcommitted] at hafter
  revert hafter
  decide +kernel

end Kasane.Exec
