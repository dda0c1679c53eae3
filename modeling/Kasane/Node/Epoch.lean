import Kasane.Exec.Nonces
import Kasane.Node.Runs
import Kasane.Precompile.Query

namespace Kasane.Node

open BigEndian Codec Word Chain Exec

variable {T : Type} {c : Crypto} {revm : Revm} {trie : TrieCommit T}

-- whatever a transaction does, its sender is part of what it leaves behind
def TouchesCaller (revm : Revm) : Prop :=
  ∀ view tx ctx result state, revm.inspectTx view tx ctx = .ok (result, state) →
    (state.get tx.caller).isSome

def allowArgsSafe (target : Principal) (method : Bytes) : Bool :=
  decide (1 ≤ target.bytes.length ∧ target.bytes ≠ [4] ∧ 1 ≤ method.length ∧
    method.length ≤ Precompile.maxQueryMethodLen) && Precompile.isAscii method

-- allowlist keys come from checked arguments
def Validated (_ : NodeState T) : NodeOp → Prop
  | .addQueryPrecompileAllowedMethod key => ∃ target method, allowArgsSafe target method = true ∧
      key.bytes = Precompile.precompileAllowKey target.bytes method
  | _ => True

def Prunes : ChainOp → Prop
  | .pruneBlocks _ _ => True
  | .interruptedPrune _ _ _ _ _ => True
  | .recoverPruneJournal => True
  | _ => False

-- what may happen while a call waits for its replies
def Awaitable (s : NodeState T) (op : NodeOp) : Prop :=
  Validated s op ∧ ∀ chainOp, op = .chain chainOp → ¬ Prunes chainOp

structure Settled (s t : NodeState T) : Prop where
  db : t.chain.world.db = s.chain.world.db
  blocks : t.chain.blocks = s.chain.blocks
  blobStore : t.chain.blobStore = s.chain.blobStore

theorem Settled.trans {s t u : NodeState T} (h : Settled s t) (h' : Settled t u) : Settled s u :=
  ⟨h'.db.trans h.db, h'.blocks.trans h.blocks, h'.blobStore.trans h.blobStore⟩

-- the epoch never goes back, and while it stands still so does all that calls read from the store
structure EpochStep (s t : NodeState T) : Prop where
  bounded : t.evmStateEpoch ≤ u64Max
  monotone : s.evmStateEpoch ≤ t.evmStateEpoch
  settled : t.evmStateEpoch < u64Max → t.evmStateEpoch = s.evmStateEpoch → Settled s t

theorem EpochStep.trans {s t u : NodeState T} (h : EpochStep s t) (h' : EpochStep t u) :
    EpochStep s u where
  bounded := h'.bounded
  monotone := h.monotone.trans h'.monotone
  settled := by
    intro hlt hsame
    have hst := h.monotone
    have htu := h'.monotone
    exact (h.settled (by omega) (by omega)).trans (h'.settled hlt (by omega))

theorem EpochStep.of_settled {s t : NodeState T} (hbound : s.evmStateEpoch ≤ u64Max)
    (hepoch : t.evmStateEpoch = s.evmStateEpoch) (h : Settled s t) : EpochStep s t where
  bounded := hepoch ▸ hbound
  monotone := le_of_eq hepoch.symm
  settled := fun _ _ => h

theorem EpochStep.of_bumped {s t : NodeState T} (hbound : t.evmStateEpoch ≤ u64Max)
    (h : saturatingAdd u64Max s.evmStateEpoch 1 ≤ t.evmStateEpoch) (hs : s.evmStateEpoch ≤ u64Max) :
    EpochStep s t := by
  rw [saturatingAdd] at h
  exact ⟨hbound, by omega, fun hlt hsame => absurd hlt (by omega)⟩

theorem bump_bounds {s : NodeState T} (h : s.evmStateEpoch ≤ u64Max) :
    s.evmStateEpoch ≤ (bumpEvmStateEpoch s).evmStateEpoch ∧
      (bumpEvmStateEpoch s).evmStateEpoch ≤ u64Max := by
  rw [bumpEvmStateEpoch, saturatingAdd]
  dsimp only
  omega

theorem commitBumps_bounds (diffs : List StateDiff) {s : NodeState T}
    (h : s.evmStateEpoch ≤ u64Max) : s.evmStateEpoch ≤ (commitBumps diffs s).evmStateEpoch ∧
      (commitBumps diffs s).evmStateEpoch ≤ u64Max := by
  induction diffs generalizing s with
  | nil => exact ⟨le_refl _, h⟩
  | cons diff diffs ih =>
      obtain ⟨hle, hmax⟩ := bump_bounds h
      rw [commitBumps, List.foldl_cons]
      split_ifs
      · exact ih h
      · exact ⟨hle.trans (ih hmax).1, (ih hmax).2⟩

theorem commitBumps_bumped {diffs : List StateDiff} (hsome : ∃ diff ∈ diffs, diff.entries ≠ [])
    {s : NodeState T} (h : s.evmStateEpoch ≤ u64Max) :
    saturatingAdd u64Max s.evmStateEpoch 1 ≤ (commitBumps diffs s).evmStateEpoch := by
  induction diffs generalizing s with
  | nil => exact absurd hsome (by simp)
  | cons diff diffs ih =>
      rw [commitBumps, List.foldl_cons]
      split_ifs with hempty
      · refine ih ?_ h
        obtain ⟨d, hd, hne⟩ := hsome
        rcases List.mem_cons.mp hd with rfl | hd
        · exact absurd hempty hne
        · exact ⟨d, hd, hne⟩
      · exact (commitBumps_bounds diffs (bump_bounds h).2).1

structure DiffsTouch (x : ExecState (evm c revm trie)) : Prop where
  length : x.diffs.length = x.included.length
  touched : ∀ diff ∈ x.diffs, OrdMap.entries diff ≠ []

theorem entries_of_get {K V : Type} [LinearOrder K] {m : OrdMap K V} {k : K} {v : V}
    (h : m.get k = some v) : m.entries ≠ [] := by
  intro hnil
  have hmem := OrdMap.mem_entries.mpr h
  rw [hnil] at hmem
  exact absurd hmem List.not_mem_nil

theorem diffsTouch_closed (touches : TouchesCaller revm) {txs : List PreparedTx}
    (ctx : BlockExecContext) :
    StagedClosed (evm c revm trie) ctx txs DiffsTouch where
  dropped := fun _ _ _ h => ⟨h.length, h.touched⟩
  failed := fun _ _ _ _ _ _ _ _ h _ => ⟨h.length, h.touched⟩
  ran := by
    intro x tx limit outcome diff cache tick htx h hrun
    obtain ⟨-, price, result, state, hdone⟩ := executeTxOn_ok c hrun
    obtain ⟨before, hbefore⟩ := Option.isSome_iff_exists.mp (touches _ _ _ _ _ hdone.inspected)
    obtain ⟨account, haccount, -, -⟩ := get_patched_of_some (c := c) hbefore
    refine ⟨?_, ?_⟩
    · simp [h.length]
    · intro d hd
      rcases List.mem_append.mp hd with hd | hd
      · exact h.touched d hd
      · obtain rfl := List.mem_singleton.mp hd
        rw [hdone.patched]
        exact entries_of_get haccount

theorem committedDiffs_touch (touches : TouchesCaller revm) {env : CallEnv} {maxTxs : Nat}
    {s t : StableState (World T)} {outcome : ProduceBlockOutcome}
    (hrun : produceBlock c (evm c revm trie) env maxTxs s = some (.ok outcome, t)) :
    ∃ diff ∈ committedDiffs c revm trie env maxTxs s, diff.entries ≠ [] := by
  cases produceBlock_cases hrun with
  | @committed _ _ x root world h =>
      have hx := (diffsTouch_closed touches (blockContext env s)).executeBlock
        (fun _ _ => ⟨rfl, fun _ hd => absurd hd List.not_mem_nil⟩) h.executed
      have hdiffs : committedDiffs c revm trie env maxTxs s = x.diffs := by
        rw [committedDiffs, hrun, h.executed]
      rw [hdiffs]
      have hpos : 0 < x.diffs.length := by
        rw [hx.length]
        exact List.length_pos_of_ne_nil h.included
      exact ⟨_, List.getElem_mem hpos, hx.touched _ (List.getElem_mem hpos)⟩

theorem settled_of_view {s : NodeState T} {t : StableState (World T)}
    (hview : t.exportView = s.chain.exportView) (hdb : t.world.db = s.chain.world.db) :
    Settled s { s with chain := t } :=
  ⟨hdb, congrArg ExportView.blocks hview, congrArg ExportView.blobStore hview⟩

theorem epochStep_produceBlock (touches : TouchesCaller revm) {env : CallEnv} {maxTxs : Nat}
    {s : NodeState T} {t : StableState (World T)} {r : Except ChainError ProduceBlockOutcome}
    (hs : s.evmStateEpoch ≤ u64Max)
    (hrun : produceBlock c (evm c revm trie) env maxTxs s.chain = some (r, t)) :
    EpochStep s (commitBumps (committedDiffs c revm trie env maxTxs s.chain)
      { s with chain := t }) := by
  have hstill {e : ChainError} (hr : r = .error e) (h : Settled s { s with chain := t }) :
      EpochStep s (commitBumps (committedDiffs c revm trie env maxTxs s.chain)
        { s with chain := t }) := by
    have hnone : committedDiffs c revm trie env maxTxs s.chain = [] := by
      rw [committedDiffs, hrun, hr]
    rw [hnone]
    exact .of_settled hs rfl h
  cases hcase : produceBlock_cases hrun with
  | refused e m => exact hstill rfl ⟨rfl, rfl, rfl⟩
  | dropped e m drops selected =>
      refine hstill rfl (settled_of_view ?_ ?_)
      · exact view_applyDrops _ drops
      · rw [(quiet_applyDrops (c := c) (evm c revm trie) _ drops).world]
  | @unprepared diffs number timestamp parentHash reason world e m prepared =>
      refine hstill rfl ⟨?_, rfl, rfl⟩
      change world.db = s.chain.world.db
      rw [← (Prod.mk.inj prepared).2]
  | committed h =>
      have hbound : ({ s with chain := t } : NodeState T).evmStateEpoch ≤ u64Max := hs
      exact .of_bumped (commitBumps_bounds _ hbound).2
        (commitBumps_bumped (committedDiffs_touch touches hrun) hbound) hs

theorem insert_of_get {K V : Type} [LinearOrder K] {m : OrdMap K V} {k : K} {v : V}
    (h : m.get k = some v) : m.insert k v = m := by
  apply OrdMap.ext_get
  intro j
  rw [OrdMap.get_insert]
  split_ifs with hj
  · rw [hj, h]
  · rfl

theorem credit_unchanged {db db' : RevmStableDb} {address : Address} {amount : Nat}
    (h : creditAccount db address amount = some (db', false)) : db' = db := by
  rw [creditAccount] at h
  split_ifs at h
  obtain ⟨rfl, hchanged⟩ := Prod.mk.inj (Option.some.inj h)
  cases hget : db.accounts.get address with
  | none =>
      rw [hget] at hchanged
      exact absurd hchanged (by simp)
  | some val =>
      rw [hget] at hchanged
      have hsame : val.balance + amount = val.balance := by simpa using hchanged
      rw [Option.getD_some, hsame, insert_of_get hget]

theorem epochStep_creditWorld {s t : NodeState T} {address : Address} {amount : Nat}
    (hs : s.evmStateEpoch ≤ u64Max) (h : creditWorld s address amount = .ok t) :
    EpochStep s t := by
  rw [creditWorld] at h
  split at h
  · exact absurd h (by simp)
  · rename_i db changed hcredit
    obtain rfl := Except.ok.inj h
    cases changed with
    | true => exact .of_bumped (bump_bounds hs).2 (le_refl _) hs
    | false =>
        refine .of_settled hs rfl ⟨?_, rfl, rfl⟩
        exact credit_unchanged hcredit

theorem epochStep_creditDeposit {s t : NodeState T} {requestId : TxId} {recipient : Address}
    {amountWei : ByteArr 32} (hs : s.evmStateEpoch ≤ u64Max)
    (h : creditNativeDeposit requestId recipient amountWei s = .ok t) : EpochStep s t := by
  rw [creditNativeDeposit] at h
  split at h
  · exact absurd h (by simp)
  · rename_i amount _
    split at h
    · split_ifs at h
      obtain rfl := Except.ok.inj h
      exact .of_settled hs rfl ⟨rfl, rfl, rfl⟩
    · rcases hcredit : creditWorld s recipient amount with e | u
      · rw [hcredit] at h
        exact absurd h (by simp [Except.map])
      · rw [hcredit] at h
        obtain rfl := Except.ok.inj h
        have hstep := epochStep_creditWorld hs hcredit
        refine ⟨hstep.bounded, hstep.monotone, fun hlt hsame => ?_⟩
        have hsettled := hstep.settled hlt hsame
        exact ⟨hsettled.db, hsettled.blocks, hsettled.blobStore⟩

theorem epochStep_chainOp (touches : TouchesCaller revm) {op : ChainOp} {s : NodeState T}
    {t : StableState (World T)} (hs : s.evmStateEpoch ≤ u64Max) (hop : ¬ Prunes op)
    (hrun : op.Runs c (evm c revm trie) s.chain t) :
    EpochStep s (commitBumps (commitsOf c revm trie s.chain op) { s with chain := t }) := by
  have hsubmitted {call : SubmitCall} {r : Except ChainError TxId}
      (h : Submission c (evm c revm trie) call s.chain r t)
      (hview : t.exportView = s.chain.exportView) : EpochStep s { s with chain := t } :=
    .of_settled hs rfl (settled_of_view hview (by rw [h.world]))
  cases hrun with
  | submitTx now txBytes who s =>
      exact hsubmitted (submission_submitTx ..) (view_submitTx ..)
  | submitIcTxInput now who canisterId tx s =>
      exact hsubmitted (submission_submitIcTxInput ..) (view_submitIcTxInput ..)
  | produceBlock returns => exact epochStep_produceBlock touches hs returns
  | pruneBlocks retain maxOps s => exact absurd trivial hop
  | interruptedPrune pruning k => exact absurd trivial hop
  | recoverPruneJournal s => exact absurd trivial hop
  | rebuildPendingRuntimeIndexes _ =>
      refine .of_settled hs rfl (settled_of_view (view_rebuildPendingRuntime _) ?_)
      rw [(quiet_tidied (tidied_rebuildRuntime s.chain :
        Tidied c (evm c revm trie) ∅ s.chain _)).world]

theorem epochStep_op (touches : TouchesCaller revm) {op : NodeOp} {s t : NodeState T}
    (hs : s.evmStateEpoch ≤ u64Max) (ok : Awaitable s op) (hrun : op.Runs c revm trie s t) :
    EpochStep s t := by
  cases hrun with
  | chain runs => exact epochStep_chainOp touches hs (ok.2 _ rfl) runs
  | creditBalance _ credits => exact epochStep_creditWorld hs credits
  | creditNativeDeposit credits => exact epochStep_creditDeposit hs credits
  | clearMempoolOnUpgrade s => exact .of_settled hs rfl ⟨rfl, rfl, rfl⟩
  | syncChainRuntimeDefaults s => exact .of_settled hs rfl ⟨rfl, rfl, rfl⟩
  | applyInstructionSoftLimits query update s => exact .of_settled hs rfl ⟨rfl, rfl, rfl⟩
  | addQueryPrecompileAllowedMethod key s => exact .of_settled hs rfl ⟨rfl, rfl, rfl⟩
  | removeQueryPrecompileAllowedMethod key s => exact .of_settled hs rfl ⟨rfl, rfl, rfl⟩
  | setRuntimeConfig config s => exact .of_settled hs rfl ⟨rfl, rfl, rfl⟩

theorem epochStep_run (touches : TouchesCaller revm) {s t : NodeState T}
    (hs : s.evmStateEpoch ≤ u64Max) (run : NodeRun c revm trie Awaitable s t) : EpochStep s t := by
  induction run with
  | start => exact .of_settled hs rfl ⟨rfl, rfl, rfl⟩
  | step _ ok runs ih => exact ih.trans (epochStep_op touches ih.bounded ok runs)

theorem epoch_le_op {op : NodeOp} {s t : NodeState T} (hs : s.evmStateEpoch ≤ u64Max)
    (hrun : op.Runs c revm trie s t) : t.evmStateEpoch ≤ u64Max := by
  cases hrun with
  | @chain _ _ t runs =>
      have hbound : ({ s with chain := t } : NodeState T).evmStateEpoch ≤ u64Max := hs
      exact (commitBumps_bounds _ hbound).2
  | creditBalance _ credits => exact (epochStep_creditWorld hs credits).bounded
  | creditNativeDeposit credits => exact (epochStep_creditDeposit hs credits).bounded
  | clearMempoolOnUpgrade s => exact hs
  | syncChainRuntimeDefaults s => exact hs
  | applyInstructionSoftLimits query update s => exact hs
  | addQueryPrecompileAllowedMethod key s => exact hs
  | removeQueryPrecompileAllowedMethod key s => exact hs
  | setRuntimeConfig config s => exact hs

theorem epoch_le_run {allowed : NodeState T → NodeOp → Prop} {world : World T}
    {config : RuntimeConfig} {s : NodeState T}
    (run : NodeRun c revm trie allowed (.init world config) s) : s.evmStateEpoch ≤ u64Max := by
  induction run with
  | start => exact Nat.zero_le _
  | step _ _ runs ih => exact epoch_le_op ih runs

end Kasane.Node
