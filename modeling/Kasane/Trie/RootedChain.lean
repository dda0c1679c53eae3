import Kasane.Chain.Commit
import Kasane.Exec.Produced
import Kasane.Trie.RootCommit

namespace Kasane.Trie

open BigEndian Patricia JournalBuilder Chain Exec Listing

deriving instance DecidableEq for OrdMap

deriving instance DecidableEq for Account

variable {H : Type} [LinearOrder H]

-- the trie that the execution of a block is given: a digest writes a root into the block
def trieCommit (c : Crypto) (codec : StateCodec H) (lib : RootLibrary H) (digest : H → ByteArr 32) :
    TrieCommit (RootState H) where
  Root := PreparedStateRoot H
  prepare := fun db t stateDiffs number _ _ =>
    let touched := touchedOf c stateDiffs
    (prepareStateRootCommit c codec lib db t stateDiffs touched.addrs.keys (touched.summary c)
      number).getD (.error "", t)
  stateRoot := fun prepared => digest prepared.stateRoot
  apply := applyStateRootCommit codec

variable {c : Crypto} {codec : StateCodec H} {lib : RootLibrary H} {digest : H → ByteArr 32}
  {revm : Revm} {A : Set Address} {S : Set Nat} {stateDiffs : List StateDiff}

theorem mem_touchAccounts (es : List (Address × Account)) (x : Touched) (addr : Address) :
    ((es.foldl (touchAccount c) x).addrs.get addr).isSome →
      addr ∈ es.map Prod.fst ∨ (x.addrs.get addr).isSome := by
  induction es generalizing x with
  | nil => exact .inr
  | cons e es ih =>
      intro h
      rw [List.map_cons, List.mem_cons]
      rcases ih _ h with hmem | hsome
      · exact .inl (.inr hmem)
      · rw [touchAccount] at hsome
        dsimp only at hsome
        rw [OrdMap.get_insert] at hsome
        by_cases haddr : addr = e.1
        · exact .inl (.inl haddr)
        · rw [if_neg haddr] at hsome
          exact .inr hsome

theorem touched_within (h : DiffsWithin A S (diffEntries stateDiffs)) :
    ∀ addr ∈ (touchedOf c stateDiffs).addrs.keys, addr ∈ A := by
  intro addr haddr
  have htouched : touchedOf c stateDiffs =
      (diffEntries stateDiffs).foldl (touchAccount c) ⟨.empty, 0, []⟩ := (List.foldl_flatMap ..).symm
  rw [OrdMap.mem_keys, ← Option.isSome_iff_exists, htouched] at haddr
  rcases mem_touchAccounts _ _ addr haddr with hmem | hsome
  · obtain ⟨e, he, rfl⟩ := List.mem_map.mp hmem
    exact h.addrs e he
  · simp at hsome

theorem within_commitAccount {db : RevmStableDb} (h : Within A S db) {e : Address × Account}
    (haddr : e.1 ∈ A) (hslots : ∀ slot v, e.2.storage.get slot = some v → slot ∈ S) :
    Within A S (db.commitAccount c e) where
  accounts := by
    intro addr val hget
    by_cases hsame : addr = e.1
    · rwa [hsame]
    · rw [db.get_commitAccount_of_ne e addr hsame] at hget
      exact h.accounts addr val hget
  storage := by
    rintro ⟨addr, slot⟩ val hget
    rw [RevmStableDb.commitAccount] at hget
    split_ifs at hget
    · rw [get_selfdestruct] at hget
      split_ifs at hget
      exact h.storage _ val hget
    · dsimp only at hget
      by_cases hsame : addr = e.1
      · subst hsame
        rw [get_commitSlots] at hget
        refine ⟨haddr, ?_⟩
        cases hchanged : changedSlot e.2.storage slot with
        | some v =>
            obtain ⟨s, hs⟩ := mem_of_changedSlot hchanged
            exact hslots slot s hs
        | none =>
            rw [hchanged] at hget
            exact (h.storage _ val hget).2
      · rw [get_commitSlots_of_ne hsame] at hget
        exact h.storage _ val hget

theorem within_commitAll {db : RevmStableDb} (h : Within A S db)
    (hdiffs : DiffsWithin A S (diffEntries stateDiffs)) :
    Within A S (commitAll c db stateDiffs) := by
  have hcommit : commitAll c db stateDiffs =
      (diffEntries stateDiffs).foldl (RevmStableDb.commitAccount c) db :=
    (List.foldl_flatMap ..).symm
  rw [hcommit]
  clear hcommit
  generalize diffEntries stateDiffs = es at hdiffs
  induction es generalizing db with
  | nil => exact h
  | cons e es ih =>
      refine ih (within_commitAccount h (hdiffs.addrs e List.mem_cons_self)
        (hdiffs.slots e List.mem_cons_self)) ⟨fun e' he' => hdiffs.addrs e' (List.mem_cons_of_mem _ he'), ?_⟩
      exact fun e' he' => hdiffs.slots e' (List.mem_cons_of_mem _ he')

-- what the diffs of a block and its collection must be, in the state that it is produced from
structure BlockSettles (c : Crypto) (codec : StateCodec H) (lib : RootLibrary H) (A : Set Address)
    (S : Set Nat) (w : World (RootState H)) (stateDiffs : List StateDiff) (number : Nat) : Prop where
  diffs : DiffsWithin A S (diffEntries stateDiffs)
  revival : NoRevival c (diffEntries stateDiffs)
  tidy : TidyBlock c codec w.db stateDiffs (touchedOf c stateDiffs).addrs.keys
  spares : ∀ prepared t', prepareStateRootCommit c codec lib w.db w.trie stateDiffs
    (touchedOf c stateDiffs).addrs.keys ((touchedOf c stateDiffs).summary c) number =
      some (.ok prepared, t') → Spares codec t' prepared

abbrev RootChain (H : Type) [LinearOrder H] := StableState (World (RootState H))

def OpSettles (c : Crypto) (codec : StateCodec H) (lib : RootLibrary H) (digest : H → ByteArr 32)
    (revm : Revm) (A : Set Address) (S : Set Nat) (s : RootChain H) : ChainOp → Prop
  | .produceBlock env maxTxs => ∀ x,
      executeBlock c (evm c revm (trieCommit c codec lib digest)) env maxTxs s = .ok x →
        BlockSettles c codec lib A S s.world x.diffs (blockContext env s).blockNumber
  | _ => True

-- the operations of the chain, with ticks of the migration among them
inductive RootRun (c : Crypto) (codec : StateCodec H) (lib : RootLibrary H) (digest : H → ByteArr 32)
    (revm : Revm) (A : Set Address) (S : Set Nat) (s₀ : RootChain H) : RootChain H → Prop
  | start : RootRun c codec lib digest revm A S s₀ s₀
  | op {s t : RootChain H} {op : ChainOp} (run : RootRun c codec lib digest revm A S s₀ s)
      (ok : OpSettles c codec lib digest revm A S s op)
      (runs : op.Runs c (evm c revm (trieCommit c codec lib digest)) s t) :
      RootRun c codec lib digest revm A S s₀ t
  | tick {s : RootChain H} {maxSteps : Nat} {done : Bool} {trie : RootState H}
      (run : RootRun c codec lib digest revm A S s₀ s)
      (ticks : runMigrationTick c codec lib s.world.db maxSteps s.world.trie = some (done, trie)) :
      RootRun c codec lib digest revm A S s₀ { s with world := { s.world with trie := trie } }

structure ChainReady (c : Crypto) (codec : StateCodec H) (lib : RootLibrary H) (A : Set Address)
    (S : Set Nat) (w : World (RootState H)) : Prop where
  within : Within A S w.db
  ready : Ready c codec lib w.db w.trie

-- a refusal leaves the state as its migration has left it
theorem ensured_of_error {db : RevmStableDb} {t t' : RootState H} {touchedAddrs : List Address}
    {touched : TouchedSummary} {number : Nat} {reason : String}
    (h : prepareStateRootCommit c codec lib db t stateDiffs touchedAddrs touched number =
      some (.error reason, t')) : ensureInitialized c codec lib db t = some t' := by
  obtain ⟨t₁, hensure, h⟩ := Option.bind_eq_some_iff.mp h
  by_cases hpending : t₁.initialized = false ∨ t₁.phase ≠ .done
  · rw [if_pos hpending] at h
    obtain ⟨-, rfl⟩ := Prod.mk.inj (Option.some.inj h)
    exact hensure
  · rw [if_neg hpending] at h
    dsimp only at h
    by_cases hnothing : (buildTrieDelta c stateDiffs).entries = [] ∧ touchedAddrs = [] ∧
        touched.accountsCount = 0 ∧ touched.slotsCount = 0
    · rw [if_pos hnothing] at h
      cases (Prod.mk.inj (Option.some.inj h)).1
    · rw [if_neg hnothing] at h
      obtain ⟨j, -, hj⟩ := Option.map_eq_some_iff.mp h
      cases (Prod.mk.inj hj).1

theorem chainReady_error (hlawful : codec.Lawful) (hapart : Apart c A S) (hlib : lib.Right c codec)
    {w w' : World (RootState H)} (h : ChainReady c codec lib A S w) {number timestamp : Nat}
    {parentHash : ByteArr 32} {reason : String}
    (hprepare : (evm c revm (trieCommit c codec lib digest)).prepare w stateDiffs number parentHash
      timestamp = (.error reason, w')) : ChainReady c codec lib A S w' := by
  obtain ⟨t₁, hensure, hready⟩ := ready_ensureInitialized hlawful hapart h.within hlib h.ready
  obtain ⟨hresult, rfl⟩ := Prod.mk.inj hprepare
  refine ⟨h.within, ?_⟩
  dsimp only [trieCommit] at hresult ⊢
  cases hr : prepareStateRootCommit c codec lib w.db w.trie stateDiffs
      (touchedOf c stateDiffs).addrs.keys ((touchedOf c stateDiffs).summary c) number with
  | none => exact h.ready
  | some r =>
      rw [hr, Option.getD_some] at hresult
      obtain ⟨r, t'⟩ := r
      obtain rfl : r = .error reason := hresult
      rw [Option.getD_some]
      obtain rfl := Option.some.inj (hensure.symm.trans (ensured_of_error hr))
      exact hready

theorem foldl_commitDiff {T : Type} {trie : TrieCommit T} (diffs : List StateDiff) (w : World T) :
    diffs.foldl (evm c revm trie).commitDiff w = ⟨commitAll c w.db diffs, w.trie⟩ := by
  induction diffs generalizing w with
  | nil => rfl
  | cons diff diffs ih => exact ih _

structure BlockRooted (c : Crypto) (codec : StateCodec H) (digest : H → ByteArr 32)
    (w : World (RootState H)) (block : BlockData) : Prop where
  rooted : Rooted c codec w.db w.trie
  stateRoot : block.stateRoot = digest w.trie.stateRoot

theorem committed_rooted (hlawful : codec.Lawful) (hapart : Apart c A S) (hlib : lib.Right c codec)
    {s t : RootChain H} {env : CallEnv} {maxTxs : Nat} {outcome : ProduceBlockOutcome}
    {x : ExecState (evm c revm (trieCommit c codec lib digest))} {root : PreparedStateRoot H}
    {w : World (RootState H)} (h : ChainReady c codec lib A S s.world)
    (hsettles : OpSettles c codec lib digest revm A S s (.produceBlock env maxTxs))
    (hc : Committed c (evm c revm (trieCommit c codec lib digest)) env maxTxs s t outcome x root w) :
    Within A S t.world.db ∧ BlockRooted c codec digest t.world outcome.block := by
  have hblock := hsettles x hc.executed
  have hprepared := hc.prepared
  obtain ⟨hresult, rfl⟩ := Prod.mk.inj hprepared
  obtain ⟨r, t', hr, -, hcase⟩ := prepare_ready hlawful hapart h.within hlib h.ready
    ((touchedOf c x.diffs).summary c) (blockContext env s).blockNumber
    ⟨hblock.diffs, touched_within hblock.diffs, hblock.revival, hblock.tidy⟩
  dsimp only [trieCommit] at hresult
  rw [hr, Option.getD_some] at hresult
  obtain rfl : r = .ok root := hresult
  rcases hcase with ⟨herror, -⟩ | ⟨prepared, hok, hprep⟩
  · cases herror
  · obtain rfl := Except.ok.inj hok
    have htrie : ((trieCommit c codec lib digest).prepare s.world.db s.world.trie x.diffs
        (blockContext env s).blockNumber s.head.blockHash (blockContext env s).timestamp).2 = t' := by
      dsimp only [trieCommit]
      rw [hr]
      rfl
    rw [htrie] at hc
    have hfold : x.diffs.foldl (evm c revm (trieCommit c codec lib digest)).commitDiff
        { s.world with trie := t' } = ⟨commitAll c s.world.db x.diffs, t'⟩ :=
      foldl_commitDiff x.diffs _
    have hworld : t.world = (evm c revm (trieCommit c codec lib digest)).applyRoot
        ⟨commitAll c s.world.db x.diffs, t'⟩ root := by
      rw [← hfold]
      exact world_commitBlock hc.committed
    have hdb : t.world.db = commitAll c s.world.db x.diffs := congrArg World.db hworld
    have hroot : t.world.trie = applyStateRootCommit codec t' root := congrArg World.trie hworld
    refine ⟨?_, ?_, ?_⟩
    · rw [hdb]
      exact within_commitAll h.within hblock.diffs
    · rw [hdb, hroot]
      exact rooted_apply hprep (hblock.spares root t' hr)
    · rw [hc.block, hroot]
      refine congrArg digest ?_
      rw [applyStateRootCommit]
      by_cases hnothing : root.storageUpdates = [] ∧ root.nodeDeltaCounts.entries = [] ∧
          root.newNodeRecords.entries = [] ∧ root.updatedAccountLeafHashes.entries = [] ∧
          root.stateRoot = t'.stateRoot
      · rw [if_pos hnothing]
        exact hnothing.2.2.2.2
      · rw [if_neg hnothing]

theorem world_op {T : Type} {trie : TrieCommit T} {s t : StableState (World T)} {op : ChainOp}
    (hrun : op.Runs c (evm c revm trie) s t) :
    t.world = s.world ∨ ∃ env maxTxs, op = .produceBlock env maxTxs := by
  cases hrun with
  | submitTx now txBytes who s => exact .inl (submission_submitTx ..).world
  | submitIcTxInput now who canisterId tx s => exact .inl (submission_submitIcTxInput ..).world
  | produceBlock returns => exact .inr ⟨_, _, rfl⟩
  | pruneBlocks retain maxOps s =>
      exact .inl ((pruneClosed_world s.world).pruneBlocks retain maxOps rfl)
  | interruptedPrune pruning k =>
      exact .inl ((pruneClosed_world _).crashed _ _ k ((pruneClosed_world _).pruning rfl pruning))
  | recoverPruneJournal s => exact .inl ((pruneClosed_world s.world).recover rfl)
  | rebuildPendingRuntimeIndexes s =>
      have htidied : Tidied c (evm c revm trie) ∅ s
          (rebuildPendingRuntimeIndexes c (evm c revm trie) s) := tidied_rebuildRuntime s
      exact .inl (quiet_tidied htidied).world

theorem chainReady_op (hlawful : codec.Lawful) (hapart : Apart c A S) (hlib : lib.Right c codec)
    {s t : RootChain H} {op : ChainOp} (h : ChainReady c codec lib A S s.world)
    (hsettles : OpSettles c codec lib digest revm A S s op)
    (hrun : op.Runs c (evm c revm (trieCommit c codec lib digest)) s t) :
    ChainReady c codec lib A S t.world := by
  rcases world_op hrun with hworld | ⟨env, maxTxs, rfl⟩
  · rw [hworld]
    exact h
  · cases hrun with
    | produceBlock returns =>
        cases produceBlock_cases returns with
        | refused e m => exact h
        | dropped e m drops selected =>
            rw [(quiet_applyDrops _ _ drops).world]
            exact h
        | unprepared e m prepared => exact chainReady_error hlawful hapart hlib h prepared
        | committed hc =>
            obtain ⟨hwithin, hrooted⟩ := committed_rooted hlawful hapart hlib h hsettles hc
            exact ⟨hwithin, .rooted hrooted.rooted⟩

theorem ready_tick (hlawful : codec.Lawful) (hapart : Apart c A S) (hlib : lib.Right c codec)
    {db : RevmStableDb} {t : RootState H} (hwithin : Within A S db) (h : Ready c codec lib db t)
    {maxSteps : Nat} {r : Bool × RootState H}
    (hr : runMigrationTick c codec lib db maxSteps t = some r) : Ready c codec lib db r.2 := by
  cases h with
  | rooted h =>
      rw [runMigrationTick, h.phase] at hr
      dsimp only at hr
      rw [if_pos h.initialized] at hr
      obtain rfl := Option.some.inj hr
      exact .rooted h
  | pending fresh migrating tidy =>
      obtain ⟨r', hr', hticks⟩ := ticks_runMigrationTick hlawful hapart hwithin hlib tidy migrating
        maxSteps
      obtain rfl := Option.some.inj (hr.symm.trans hr')
      have hinitialized := initialized_runMigrationTick hr fresh
      cases hdone : r.1 with
      | true =>
          exact .rooted (migrated_of_noneLeft hticks.migrating (hticks.finished.mp hdone)).rooted
      | false => exact .pending (hinitialized.trans hdone) hticks.migrating tidy

theorem chainReady_run (hlawful : codec.Lawful) (hapart : Apart c A S) (hlib : lib.Right c codec)
    {s₀ s : RootChain H} (h : ChainReady c codec lib A S s₀.world)
    (run : RootRun c codec lib digest revm A S s₀ s) : ChainReady c codec lib A S s.world := by
  induction run with
  | start => exact h
  | op run ok runs ih => exact chainReady_op hlawful hapart hlib ih ok runs
  | tick run ticks ih => exact ⟨ih.within, ready_tick hlawful hapart hlib ih.within ih.ready ticks⟩

-- every block carries the root that the accounts and the storage after it determine
theorem produced_state_root (hlawful : codec.Lawful) (hapart : Apart c A S) (hlib : lib.Right c codec)
    {world : World (RootState H)} (hwithin : Within A S world.db)
    (hready : Ready c codec lib world.db world.trie) {s t : RootChain H}
    (run : RootRun c codec lib digest revm A S (.init world) s) {env : CallEnv} {maxTxs : Nat}
    (hsettles : OpSettles c codec lib digest revm A S s (.produceBlock env maxTxs))
    {outcome : ProduceBlockOutcome}
    (hrun : produceBlock c (evm c revm (trieCommit c codec lib digest)) env maxTxs s =
      some (.ok outcome, t)) :
    ∃ roots root, outcome.block.stateRoot = digest root ∧
      IsStateRoot c codec t.world.db roots root ∧ t.world.trie.stateRoot = root ∧
      storedRoot codec t.world.trie.toTrieState = roots := by
  have hstart : ChainReady c codec lib A S (.init world : RootChain H).world := ⟨hwithin, hready⟩
  have h := chainReady_run hlawful hapart hlib hstart run
  cases produceBlock_cases hrun with
  | committed hc =>
      obtain ⟨-, hrooted⟩ := committed_rooted hlawful hapart hlib h hsettles hc
      exact ⟨_, _, hrooted.stateRoot, hrooted.rooted.mirrors.isStateRoot hlawful, rfl, rfl⟩

def rootedRoot : RootState Bytes := { freshRoot plainState with initialized := true }

theorem rootedRoot_rooted : Rooted sampleCrypto plainState emptyDb rootedRoot where
  phase := rfl
  initialized := rfl
  nonempty := fun _ h => absurd h (by simp [rootedRoot, freshRoot, emptyTrie])
  mirrors := mirrors_emptyTrie sampleCrypto plainState

def sampleRevm : Revm where
  inspectTx := fun _ _ _ =>
    .ok (.success 21000 (.call []) [], OrdMap.empty.insert feeRecipient (sampleAccount 0))
  exceeds := fun _ _ _ _ => false
  pendingQuery := fun _ _ _ => false
  traces := fun _ _ _ _ => none

def sampleLib : RootLibrary Bytes := builtLibrary sampleCrypto plainState

def sampleDigest (_ : Bytes) : ByteArr 32 := zeroArr 32

abbrev sampleNode : Evm (World (RootState Bytes)) :=
  evm sampleCrypto sampleRevm (trieCommit sampleCrypto plainState sampleLib sampleDigest)

def sampleQueue : RootChain Bytes :=
  (submitTx sampleCrypto sampleNode 0 .ethSigned [5] samplePrincipal (.init ⟨emptyDb, rootedRoot⟩)).2

def sampleBalance : Nat := baseFeeReward 21000 sampleQueue.chainState.baseFee

def sameDiffs (diffs diffs' : List StateDiff) : Bool := decide (diffs = diffs')

theorem eq_of_sameDiffs {diffs diffs' : List StateDiff} (h : sameDiffs diffs diffs' = true) :
    diffs = diffs' := of_decide_eq_true h

def commits (x : ExecState sampleNode) : Bool :=
  (commitBlock sampleCrypto sampleNode sampleEnv (blockContext sampleEnv sampleQueue) x.gasUsed
    (makeBlock sampleCrypto sampleQueue.head.blockHash (blockContext sampleEnv sampleQueue) x.gasUsed
      (x.included.map StagedIncluded.txId) (zeroArr 32)) x.drops x.included sampleQueue).isSome

def runsAsExpected : Except ChainError (ExecState sampleNode) → Bool
  | .ok x => decide (x.included ≠ []) && sameDiffs x.diffs (sampleDiffs sampleBalance) && commits x
  | .error _ => false

theorem sampleQueue_selected :
    selectReadyCandidates sampleCrypto sampleQueue sampleQueue.chainState.baseFee 1 =
      [lastByteArr 32 [5]] := by
  rw [selectReadyCandidates, selectTopK_insertionSort]
  decide +kernel

theorem sampleQueue_runs :
    runsAsExpected (executeBlock sampleCrypto sampleNode sampleEnv 1 sampleQueue) = true := by
  rw [executeBlock, stagedTxs, prepareBlock, sampleQueue_selected]
  decide +kernel

theorem sampleDiffs_settle : Settles sampleCrypto plainState {feeRecipient} {7} emptyDb
    (sampleDiffs sampleBalance)
    (touchedOf sampleCrypto (sampleDiffs sampleBalance)).addrs.keys where
  diffs := sampleDiffs_within sampleBalance
  touched := touched_within (sampleDiffs_within sampleBalance)
  revival := List.pairwise_singleton _ _
  tidy := (sampleDiffs_onlyWrites sampleBalance).tidyBlock

theorem sampleApart : Apart sampleCrypto {feeRecipient} {7} :=
  ⟨Set.injOn_singleton _ _, Set.injOn_singleton _ _⟩

theorem emptyDb_within (A : Set Address) (S : Set Nat) : Within A S emptyDb :=
  ⟨fun _ _ h => absurd h (by simp [emptyDb]), fun _ _ h => absurd h (by simp [emptyDb])⟩

theorem produced_state_root_sample :
    ∃ outcome t, produceBlock sampleCrypto sampleNode sampleEnv 1 sampleQueue =
        some (.ok outcome, t) ∧
      ∃ roots root, outcome.block.stateRoot = sampleDigest root ∧
        IsStateRoot sampleCrypto plainState t.world.db roots root ∧ t.world.trie.stateRoot = root ∧
        storedRoot plainState t.world.trie.toTrieState = roots := by
  have hruns := sampleQueue_runs
  cases hx : executeBlock sampleCrypto sampleNode sampleEnv 1 sampleQueue with
  | error e =>
      rw [hx] at hruns
      cases hruns
  | ok x =>
      rw [hx, runsAsExpected, Bool.and_eq_true, Bool.and_eq_true] at hruns
      obtain ⟨⟨hincluded, hdiffs⟩, hcommits⟩ := hruns
      have hdiffs : x.diffs = sampleDiffs sampleBalance := eq_of_sameDiffs hdiffs
      obtain ⟨u, hu⟩ := Option.isSome_iff_exists.mp hcommits
      have hworld : sampleQueue.world = ⟨emptyDb, rootedRoot⟩ :=
        (submission_submitTx ..).world
      obtain ⟨prepared, t', hprepare, hprepared⟩ := prepare_of_rooted sampleLib plain_lawful
        sampleApart (emptyDb_within _ _) rootedRoot_rooted
        ((touchedOf sampleCrypto (sampleDiffs sampleBalance)).summary sampleCrypto)
        (blockContext sampleEnv sampleQueue).blockNumber sampleDiffs_settle
      have hfresh : t'.store.Fresh := by
        rw [store_of_prepare rootedRoot_rooted hprepare]
        exact ⟨fun _ _ h => absurd h (by simp [rootedRoot, freshRoot, emptyTrie, NodeStore.empty]), rfl⟩
      have hsettles : OpSettles sampleCrypto plainState sampleLib sampleDigest sampleRevm {feeRecipient}
          {7} sampleQueue (.produceBlock sampleEnv 1) := by
        intro y hy
        obtain rfl := Except.ok.inj (hx.symm.trans hy)
        rw [hdiffs, hworld]
        refine ⟨sampleDiffs_settle.diffs, sampleDiffs_settle.revival, sampleDiffs_settle.tidy, ?_⟩
        intro prepared' t'' hprepare'
        obtain ⟨hok, rfl⟩ := Prod.mk.inj (Option.some.inj (hprepare.symm.trans hprepare'))
        obtain rfl := Except.ok.inj hok
        exact spares_of_fresh hprepared hfresh
      have hprepares : sampleNode.prepare sampleQueue.world x.diffs
          (blockContext sampleEnv sampleQueue).blockNumber sampleQueue.head.blockHash
          (blockContext sampleEnv sampleQueue).timestamp = (.ok prepared, ⟨emptyDb, t'⟩) := by
        rw [hworld, hdiffs]
        dsimp only [sampleNode, evm, trieCommit]
        rw [hprepare]
        rfl
      obtain ⟨outcome, t, hrun⟩ := produceBlock_of_prepared Nat.one_ne_zero hx
        (of_decide_eq_true hincluded) hprepares hu
      have run : RootRun sampleCrypto plainState sampleLib sampleDigest sampleRevm {feeRecipient} {7}
          (.init ⟨emptyDb, rootedRoot⟩) sampleQueue := by
        refine .op .start ?_ (.submitTx 0 [5] samplePrincipal _)
        trivial
      exact ⟨outcome, t, hrun, produced_state_root plain_lawful sampleApart
        (builtLibrary_right plain_lawful) (emptyDb_within _ _) (.rooted rootedRoot_rooted) run hsettles
        hrun⟩

end Kasane.Trie
