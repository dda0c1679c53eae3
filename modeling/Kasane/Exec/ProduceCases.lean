import Kasane.Exec.Replay

namespace Kasane.Chain

open BigEndian Codec Word

variable {W : Type}

structure Committed (c : Crypto) (evm : Evm W) (env : CallEnv) (maxTxs : Nat) (s t : StableState W)
    (outcome : ProduceBlockOutcome) (x : ExecState evm) (root : evm.Root) (world : W) : Prop where
  executed : executeBlock c evm env maxTxs s = .ok x
  included : x.included ≠ []
  few : x.included.length ≤ readyCandidateLimit
  selected : (x.drops.map QueuedDrop.txId ++ x.included.map StagedIncluded.txId).Subperm
    (selectReadyCandidates c s s.chainState.baseFee maxTxs)
  prepared : evm.prepare s.world x.diffs (blockContext env s).blockNumber s.head.blockHash
    (blockContext env s).timestamp = (.ok root, world)
  block : outcome.block = makeBlock c s.head.blockHash (blockContext env s) x.gasUsed
    (x.included.map StagedIncluded.txId) (evm.stateRoot root)
  gasUsed : outcome.gasUsed = x.gasUsed
  committed : commitBlock c evm env (blockContext env s) x.gasUsed outcome.block x.drops x.included
    { (prepareBlock c env maxTxs s).state with
      world := evm.applyRoot (x.diffs.foldl evm.commitDiff world) root } = some t

inductive ProduceCase (c : Crypto) (evm : Evm W) (env : CallEnv) (maxTxs : Nat) (s : StableState W) :
    Except ChainError ProduceBlockOutcome → StableState W → Prop
  | refused (e : ChainError) (m : OrdMap Principal Nat) :
      ProduceCase c evm env maxTxs s (.error e) { s with decodeSuppressUntil := m }
  | dropped (e : ChainError) (m : OrdMap Principal Nat) (drops : List QueuedDrop)
      (selected : (drops.map QueuedDrop.txId).Subperm
        (selectReadyCandidates c s s.chainState.baseFee maxTxs)) :
      ProduceCase c evm env maxTxs s (.error e)
        (applyDrops c evm { s with decodeSuppressUntil := m } drops)
  | unprepared {diffs : List evm.Diff} {number timestamp : Nat} {parentHash : ByteArr 32}
      {reason : String} {world : W} (e : ChainError) (m : OrdMap Principal Nat)
      (prepared : evm.prepare s.world diffs number parentHash timestamp = (.error reason, world)) :
      ProduceCase c evm env maxTxs s (.error e) { s with decodeSuppressUntil := m, world := world }
  | committed {t : StableState W} {outcome : ProduceBlockOutcome} {x : ExecState evm}
      {root : evm.Root} {world : W} (h : Committed c evm env maxTxs s t outcome x root world) :
      ProduceCase c evm env maxTxs s (.ok outcome) t

variable {c : Crypto} {evm : Evm W} {env : CallEnv} {maxTxs : Nat} {s t : StableState W}

theorem prepareBlock_prepares (c : Crypto) (env : CallEnv) (maxTxs : Nat) (s : StableState W) :
    (∃ m, (prepareBlock c env maxTxs s).state = { s with decodeSuppressUntil := m }) ∧
      (((PreparedItem.drops (prepareBlock c env maxTxs s).prepared).map QueuedDrop.txId ++
        (PreparedItem.txs (prepareBlock c env maxTxs s).prepared).map PreparedTx.txId).Subperm
          (selectReadyCandidates c s s.chainState.baseFee maxTxs)) := by
  obtain ⟨hstate, ⟨l, hl, hids⟩⟩ := prepares_candidates (c := c) env (blockContext env s)
    s.chainState.updateInstructionSoftLimit (env.counter 0)
    (selectReadyCandidates c s s.chainState.baseFee maxTxs) ⟨s, 1, [], 0, .empty⟩
  rw [List.map_nil, List.nil_append] at hids
  refine ⟨hstate, (perm_preparedIds _).subperm.trans ?_⟩
  rw [prepareBlock, hids]
  exact hl.subperm

theorem executeBlock_selected {x : ExecState evm} (h : executeBlock c evm env maxTxs s = .ok x) :
    (x.drops.map QueuedDrop.txId ++ x.included.map StagedIncluded.txId).Subperm
      (selectReadyCandidates c s s.chainState.baseFee maxTxs) :=
  (executes_staged h).ids.trans (prepareBlock_prepares c env maxTxs s).2

theorem executeBlock_eq (evm : Evm W) (env : CallEnv) (maxTxs : Nat) (s : StableState W) :
    executeBlock c evm env maxTxs s = executeStaged evm env (blockContext env s)
      s.chainState.updateInstructionSoftLimit (env.counter 0) (stagedTxs c env maxTxs s)
      ⟨evm.newCache (prepareBlock c env maxTxs s).state.world, (prepareBlock c env maxTxs s).tick, 0,
        PreparedItem.drops (prepareBlock c env maxTxs s).prepared, [], []⟩ := by
  rw [world_prepareBlock, executeBlock]

theorem included_few {x : ExecState evm} (h : executeBlock c evm env maxTxs s = .ok x) :
    x.included.length ≤ readyCandidateLimit := by
  have hlen := (executeBlock_selected h).length_le
  rw [List.length_append, List.length_map, List.length_map] at hlen
  have hselect := length_selectReady (c := c) s s.chainState.baseFee maxTxs
  omega

-- the one place where produceBlock is unfolded for what it can do to the state
theorem produceBlock_cases {r : Except ChainError ProduceBlockOutcome}
    (hrun : produceBlock c evm env maxTxs s = some (r, t)) :
    ProduceCase c evm env maxTxs s r t := by
  obtain ⟨⟨m, hstate⟩, hselected⟩ := prepareBlock_prepares c env maxTxs s
  have hexec := executeBlock_eq (c := c) evm env maxTxs s
  have hworld := world_prepareBlock (c := c) env maxTxs s
  rw [produceBlock] at hrun
  split_ifs at hrun with hmax
  · obtain ⟨rfl, rfl⟩ := Prod.mk.inj (Option.some.inj hrun)
    exact .refused _ s.decodeSuppressUntil
  · dsimp only at hrun
    split_ifs at hrun with hempty hnone
    · obtain ⟨rfl, rfl⟩ := Prod.mk.inj (Option.some.inj hrun)
      exact .refused _ s.decodeSuppressUntil
    · obtain ⟨rfl, rfl⟩ := Prod.mk.inj (Option.some.inj hrun)
      change ProduceCase c evm env maxTxs s _ (applyDrops c evm (prepareBlock c env maxTxs s).state
        (PreparedItem.drops (prepareBlock c env maxTxs s).prepared))
      rw [hstate]
      exact .dropped _ m _ ((List.sublist_append_left ..).subperm.trans hselected)
    · split at hrun
      · obtain ⟨rfl, rfl⟩ := Prod.mk.inj (Option.some.inj hrun)
        change ProduceCase c evm env maxTxs s _ (prepareBlock c env maxTxs s).state
        rw [hstate]
        exact .refused _ m
      · rename_i x hx
        have hx' := hexec.trans hx
        have hids := executeBlock_selected hx'
        split_ifs at hrun with hincluded
        · obtain ⟨rfl, rfl⟩ := Prod.mk.inj (Option.some.inj hrun)
          change ProduceCase c evm env maxTxs s _
            (applyDrops c evm (prepareBlock c env maxTxs s).state x.drops)
          rw [hstate]
          exact .dropped _ m _ ((List.sublist_append_left ..).subperm.trans hids)
        · split at hrun
          · rename_i reason world hprepare
            obtain ⟨rfl, rfl⟩ := Prod.mk.inj (Option.some.inj hrun)
            change ProduceCase c evm env maxTxs s _
              { (prepareBlock c env maxTxs s).state with world := world }
            change evm.prepare (prepareBlock c env maxTxs s).state.world _ _ _ _ = _ at hprepare
            rw [hworld] at hprepare
            rw [hstate]
            exact .unprepared _ m hprepare
          · rename_i root world hprepare
            obtain ⟨u, hcommit, heq⟩ := Option.map_eq_some_iff.mp hrun
            obtain ⟨rfl, rfl⟩ := Prod.mk.inj heq
            change evm.prepare (prepareBlock c env maxTxs s).state.world _ _ _ _ = _ at hprepare
            rw [hworld] at hprepare
            exact .committed ⟨hx', hincluded, included_few hx', hids, hprepare, rfl, rfl, hcommit⟩

-- a property of the execution state that one transaction of the block keeps, however it ends
structure StagedClosed (evm : Evm W) (ctx : BlockExecContext) (txs : List PreparedTx)
    (P : ExecState evm → Prop) : Prop where
  dropped : ∀ (x : ExecState evm) tick drops, P x → P { x with tick := tick, drops := drops }
  failed : ∀ (x : ExecState evm) tx limit e cache tick drops, tx ∈ txs → P x →
    evm.execute x.cache tx.txId x.included.length tx.txEnv ctx limit = (.error e, cache) →
      P { x with cache := cache, tick := tick, drops := drops }
  ran : ∀ (x : ExecState evm) tx limit outcome diff cache tick, tx ∈ txs → P x →
    evm.execute x.cache tx.txId x.included.length tx.txEnv ctx limit = (.ok (outcome, diff), cache) →
      P { cache := evm.cacheCommit cache diff
          tick := tick
          gasUsed := saturatingAdd u64Max x.gasUsed outcome.receipt.gasUsed.toNat
          drops := x.drops
          diffs := x.diffs ++ [diff]
          included := x.included ++ [⟨tx.txId, outcome, tx.txEnv.caller, tx.txEnv.nonce⟩] }

theorem StagedClosed.executeStaged {ctx : BlockExecContext} {all : List PreparedTx}
    {P : ExecState evm → Prop} (h : StagedClosed evm ctx all P) {softLimit start : Nat}
    {txs : List PreparedTx} {x y : ExecState evm} (htxs : ∀ tx ∈ txs, tx ∈ all) (hx : P x)
    (hrun : executeStaged evm env ctx softLimit start txs x = .ok y) : P y := by
  induction txs generalizing x with
  | nil =>
      obtain rfl := Except.ok.inj hrun
      exact hx
  | cons tx txs ih =>
      obtain ⟨htx, hrest⟩ := List.forall_mem_cons.mp htxs
      rw [Chain.executeStaged] at hrun
      dsimp only at hrun
      split_ifs at hrun with hstop hbudget hgas hindex
      · obtain rfl := Except.ok.inj hrun
        exact hx
      · obtain rfl := Except.ok.inj hrun
        exact hx
      · exact ih hrest (h.dropped x _ _ hx) hrun
      · split at hrun
        · rename_i e cache hexec
          exact ih hrest (h.failed x tx _ e cache _ _ htx hx hexec) hrun
        · rename_i outcome diff cache hexec
          have hran := h.ran x tx _ outcome diff cache (x.tick + 2) htx hx hexec
          split_ifs at hrun
          · obtain rfl := Except.ok.inj hrun
            exact hran
          · exact ih hrest hran hrun

theorem StagedClosed.executeBlock {P : ExecState evm → Prop} {y : ExecState evm}
    (h : StagedClosed evm (blockContext env s) (stagedTxs c env maxTxs s) P)
    (hstart : ∀ tick drops, P ⟨evm.newCache s.world, tick, 0, drops, [], []⟩)
    (hrun : executeBlock c evm env maxTxs s = .ok y) : P y :=
  h.executeStaged (fun _ h => h) (hstart _ _) hrun

end Kasane.Chain
