import Kasane.Chain.Filed
import Kasane.Exec.Nonces
import Kasane.Node.Runs

namespace Kasane.Node

open BigEndian Codec Word Chain Exec

variable {T : Type} {c : Crypto} {revm : Revm} {trie : TrieCommit T}

def producedBlocks (c : Crypto) (revm : Revm) (trie : TrieCommit T) (s : StableState (World T)) :
    NodeOp → List BlockData
  | .chain (.produceBlock env maxTxs) =>
      match produceBlock c (evm c revm trie) env maxTxs s with
      | some (.ok outcome, _) => [outcome.block]
      | _ => []
  | _ => []

inductive History (c : Crypto) (revm : Revm) (trie : TrieCommit T)
    (allowed : NodeState T → NodeOp → Prop) (s₀ : NodeState T) :
    NodeState T → List BlockData → Prop
  | start : History c revm trie allowed s₀ s₀ []
  | step {s t : NodeState T} {op : NodeOp} {blocks : List BlockData}
      (history : History c revm trie allowed s₀ s blocks) (ok : allowed s op)
      (runs : op.Runs c revm trie s t) :
      History c revm trie allowed s₀ t (blocks ++ producedBlocks c revm trie s.chain op)

-- only these calls are ever made, each of them at any time and any number of times
def Submits (calls : Set SubmitCall) (_ : NodeState T) : NodeOp → Prop
  | .chain op => ∀ call, op.call = some call → call ∈ calls
  | _ => True

structure Inclusion where
  txId : TxId
  key : Address × Nat

structure Spends (c : Crypto) (calls : Set SubmitCall) (s : StableState (World T))
    (inclusions : List Inclusion) : Prop where
  filed : Filed c calls s
  signed : ∀ i ∈ inclusions, SignedAs c calls i.txId i.key.1 i.key.2
  spent : NonceLedger.Spent s.world.db.nonceOf (inclusions.map Inclusion.key)

theorem spends_init (calls : Set SubmitCall) (world : World T) :
    Spends c calls (.init world) [] where
  filed := filed_init calls world
  signed := fun _ h => absurd h List.not_mem_nil
  spent := NonceLedger.spent_nil _

theorem Spends.of_nonces {calls : Set SubmitCall} {s t : StableState (World T)}
    {inclusions : List Inclusion} (h : Spends c calls s inclusions) (hfiled : Filed c calls t)
    (hnonces : ∀ a, s.world.db.nonceOf a = t.world.db.nonceOf a) : Spends c calls t inclusions :=
  ⟨hfiled, h.signed, h.spent.raise (fun _ _ => le_of_eq (hnonces _))⟩

theorem nonceOf_credit {db db' : RevmStableDb} {address : Address} {amount : Nat} {changed : Bool}
    (h : creditAccount db address amount = some (db', changed)) (a : Address) :
    db.nonceOf a = db'.nonceOf a := by
  rw [creditAccount] at h
  split_ifs at h
  obtain ⟨rfl, -⟩ := Prod.mk.inj (Option.some.inj h)
  simp only [RevmStableDb.nonceOf, RevmStableDb.basic, OrdMap.get_insert]
  split_ifs with ha
  · subst ha
    cases db.accounts.get a <;> rfl
  · rfl

theorem world_committed {env : CallEnv} {maxTxs : Nat} {s t : StableState (World T)}
    {outcome : ProduceBlockOutcome} {x : ExecState (evm c revm trie)} {root : trie.Root}
    {world : World T}
    (h : Committed c (evm c revm trie) env maxTxs s t outcome x root world) :
    t.world.db = worldAfter c s.world.db x.diffs := by
  have hprepared : world.db = s.world.db := (congrArg World.db (Prod.mk.inj h.prepared).2).symm
  rw [world_commitBlock h.committed]
  refine Eq.trans (db_foldl_commitDiff (c := c) revm trie x.diffs world) ?_
  rw [hprepared]
  rfl

def inclusionsOf (included : List StagedIncluded) : List Inclusion :=
  included.map (fun i => ⟨i.txId, stagedKey i⟩)

theorem signers_staged {calls : Set SubmitCall} {env : CallEnv} {maxTxs : Nat}
    {s : StableState (World T)} (h : Filed c calls s) :
    ∀ tx ∈ stagedTxs c env maxTxs s, tx.txEnv.caller ∈ signers c calls :=
  fun tx htx => ⟨tx.txId, tx.txEnv.nonce, h.signed htx⟩

theorem spends_committed {calls : Set SubmitCall} (rules : NonceRules revm (signers c calls))
    {env : CallEnv} {maxTxs : Nat} {s t : StableState (World T)} {outcome : ProduceBlockOutcome}
    {x : ExecState (evm c revm trie)} {root : trie.Root} {world : World T}
    {inclusions : List Inclusion} (hs : Spends c calls s inclusions) (hfiled : Filed c calls t)
    (h : Committed c (evm c revm trie) env maxTxs s t outcome x root world) :
    Spends c calls t (inclusions ++ inclusionsOf x.included) := by
  have hblock : BlockSpends (signers c calls) s.world.db (stagedTxs c env maxTxs s) x :=
    (blockSpends_closed rules s.world.db (blockContext env s) (signers_staged hs.filed)).executeBlock
      (fun tick drops => blockSpends_start s.world.db _ tick drops) h.executed
  have hworld := world_committed h
  have hkeys : (inclusionsOf x.included).map Inclusion.key = x.included.map stagedKey := by
    rw [inclusionsOf, List.map_map]
    rfl
  refine ⟨hfiled, ?_, ?_⟩
  · intro i hi
    rcases List.mem_append.mp hi with hi | hi
    · exact hs.signed i hi
    · obtain ⟨staged, hstaged, rfl⟩ := List.mem_map.mp hi
      obtain ⟨tx, htx, hid, hkey⟩ := hblock.staged staged hstaged
      rw [hid, hkey]
      exact hs.filed.signed htx
  · rw [List.map_append, hkeys, hworld]
    refine hs.spent.append ?_ hblock.spent ?_
    · intro key hkey
      obtain ⟨i, hi, rfl⟩ := List.mem_map.mp hkey
      exact hblock.world_le _ ⟨i.txId, i.key.2, hs.signed i hi⟩
    · intro key hkey
      obtain ⟨i, hi, rfl⟩ := List.mem_map.mp hkey
      exact hblock.fresh i hi

theorem spends_produceBlock {calls : Set SubmitCall} (rules : NonceRules revm (signers c calls))
    {env : CallEnv} {maxTxs : Nat} {s t : StableState (World T)}
    {r : Except ChainError ProduceBlockOutcome} {inclusions : List Inclusion}
    (hs : Spends c calls s inclusions)
    (hrun : produceBlock c (evm c revm trie) env maxTxs s = some (r, t)) :
    ∃ added, added.map Inclusion.txId =
        (producedBlocks c revm trie s (.chain (.produceBlock env maxTxs))).flatMap BlockData.txIds ∧
      Spends c calls t (inclusions ++ added) := by
  have hfiled : Filed c calls t := hs.filed.forgets (forgets_produceBlock hrun)
  have hfailed {e : ChainError} (hr : r = .error e)
      (hnonces : ∀ a, s.world.db.nonceOf a = t.world.db.nonceOf a) :
      ∃ added, added.map Inclusion.txId =
          (producedBlocks c revm trie s (.chain (.produceBlock env maxTxs))).flatMap
            BlockData.txIds ∧ Spends c calls t (inclusions ++ added) := by
    refine ⟨[], ?_, ?_⟩
    · rw [producedBlocks, hrun, hr]
      rfl
    · rw [List.append_nil]
      exact hs.of_nonces hfiled hnonces
  cases hcase : produceBlock_cases hrun with
  | refused e m => exact hfailed rfl (fun _ => rfl)
  | dropped e m drops selected =>
      refine hfailed rfl (fun a => ?_)
      rw [(quiet_applyDrops (c := c) (evm c revm trie) _ drops).world]
  | @unprepared diffs number timestamp parentHash reason world e m prepared =>
      refine hfailed rfl (fun a => ?_)
      have hdb : s.world.db = world.db := by rw [← (Prod.mk.inj prepared).2]
      rw [hdb]
  | @committed t outcome x root world h =>
      refine ⟨inclusionsOf x.included, ?_, spends_committed rules hs hfiled h⟩
      rw [producedBlocks, hrun]
      dsimp only
      rw [List.flatMap_cons, List.flatMap_nil, List.append_nil, h.txIds, inclusionsOf, List.map_map]
      rfl

theorem spends_chainOp {calls : Set SubmitCall} (rules : NonceRules revm (signers c calls))
    {op : ChainOp} {s t : StableState (World T)} {inclusions : List Inclusion}
    (hs : Spends c calls s inclusions) (hcall : ∀ call, op.call = some call → call ∈ calls)
    (hrun : op.Runs c (evm c revm trie) s t) :
    ∃ added, added.map Inclusion.txId =
        (producedBlocks c revm trie s (.chain op)).flatMap BlockData.txIds ∧
      Spends c calls t (inclusions ++ added) := by
  have hfiled := filed_op hs.filed hcall hrun
  have hsame (hworld : t.world = s.world) : Spends c calls t (inclusions ++ []) := by
    rw [List.append_nil]
    exact hs.of_nonces hfiled (fun _ => by rw [hworld])
  have hprune := pruneClosed_world (c := c) s.world
  cases hrun with
  | submitTx now txBytes who s => exact ⟨[], rfl, hsame (Submission.world (submission_submitTx ..))⟩
  | submitIcTxInput now who canisterId tx s =>
      exact ⟨[], rfl, hsame (Submission.world (submission_submitIcTxInput ..))⟩
  | produceBlock returns => exact spends_produceBlock rules hs returns
  | pruneBlocks retain maxOps s => exact ⟨[], rfl, hsame (hprune.pruneBlocks retain maxOps rfl)⟩
  | interruptedPrune pruning k =>
      exact ⟨[], rfl, hsame (hprune.crashed _ _ k (hprune.pruning rfl pruning))⟩
  | recoverPruneJournal s => exact ⟨[], rfl, hsame (hprune.recover rfl)⟩
  | rebuildPendingRuntimeIndexes s =>
      exact ⟨[], rfl, hsame (quiet_tidied (@tidied_rebuildRuntime _ c (evm c revm trie) ∅ s)).world⟩

theorem spends_creditWorld {calls : Set SubmitCall} {s t : NodeState T} {address : Address}
    {amount : Nat} {inclusions : List Inclusion} (hs : Spends c calls s.chain inclusions)
    (h : creditWorld s address amount = .ok t) : Spends c calls t.chain inclusions := by
  obtain ⟨db, changed, hcredit, heq⟩ := creditWorld_ok h
  rw [heq]
  exact hs.of_nonces hs.filed (nonceOf_credit hcredit)

theorem spends_op {calls : Set SubmitCall} (rules : NonceRules revm (signers c calls))
    {op : NodeOp} {s t : NodeState T} {inclusions : List Inclusion}
    (hs : Spends c calls s.chain inclusions) (ok : Submits calls s op)
    (hrun : op.Runs c revm trie s t) :
    ∃ added, added.map Inclusion.txId =
        (producedBlocks c revm trie s.chain op).flatMap BlockData.txIds ∧
      Spends c calls t.chain (inclusions ++ added) := by
  have hstill {u : StableState (World T)} (hu : Spends c calls u inclusions) :
      ∃ added : List Inclusion, added.map Inclusion.txId = [] ∧
        Spends c calls u (inclusions ++ added) :=
    ⟨[], rfl, by rwa [List.append_nil]⟩
  have hsame {u : StableState (World T)} (hstore : u.txStore = s.chain.txStore)
      (hworld : u.world = s.chain.world) : Spends c calls u inclusions :=
    hs.of_nonces (hs.filed.forgets (.of_eq hstore)) (fun _ => by rw [hworld])
  cases hrun with
  | chain runs =>
      rw [commitBumps_chain]
      exact spends_chainOp rules hs ok runs
  | creditBalance _ credits => exact hstill (spends_creditWorld hs credits)
  | creditNativeDeposit credits =>
      rcases creditNativeDeposit_ok credits with heq | ⟨recipient, amount, u, hcredit, heq⟩
      · rw [heq]
        exact hstill hs
      · rw [heq]
        exact hstill (spends_creditWorld hs hcredit)
  | clearMempoolOnUpgrade s => exact hstill (hsame rfl rfl)
  | syncChainRuntimeDefaults s => exact hstill (hsame rfl rfl)
  | applyInstructionSoftLimits query update s => exact hstill (hsame rfl rfl)
  | addQueryPrecompileAllowedMethod key s => exact hstill hs
  | removeQueryPrecompileAllowedMethod key s => exact hstill hs
  | setRuntimeConfig config s => exact hstill hs

theorem spends_history {calls : Set SubmitCall} (rules : NonceRules revm (signers c calls))
    {world : World T} {config : RuntimeConfig} {s : NodeState T} {blocks : List BlockData}
    (history : History c revm trie (Submits calls) (.init world config) s blocks) :
    ∃ inclusions, inclusions.map Inclusion.txId = blocks.flatMap BlockData.txIds ∧
      Spends c calls s.chain inclusions := by
  induction history with
  | start => exact ⟨[], rfl, spends_init calls world⟩
  | step _ ok runs ih =>
      obtain ⟨inclusions, hids, hs⟩ := ih
      obtain ⟨added, hadded, ht⟩ := spends_op rules hs ok runs
      refine ⟨inclusions ++ added, ?_, ht⟩
      rw [List.map_append, List.flatMap_append, hids, hadded]

theorem tx_included_once {calls : Set SubmitCall} (rules : NonceRules revm (signers c calls))
    (collision_free : Set.InjOn c.keccak256 (SubmitCall.idPreimage c '' calls))
    {world : World T} {config : RuntimeConfig} {s : NodeState T} {blocks : List BlockData}
    (history : History c revm trie (Submits calls) (.init world config) s blocks) :
    (blocks.flatMap BlockData.txIds).Nodup := by
  obtain ⟨inclusions, hids, hs⟩ := spends_history rules history
  rw [← hids]
  refine NonceLedger.nodup_of_keys hs.spent.once ?_
  intro i hi j hj hsame
  obtain ⟨hsender, hnonce⟩ := (hsame ▸ hs.signed i hi).unique collision_free (hs.signed j hj)
  exact Prod.ext hsender hnonce

def nonceDiff (view : StateView) (tx : TxEnv) : StateDiff :=
  (OrdMap.empty.insert feeRecipient
    (touchedAccount (balanceIn view feeRecipient) (infoNonce (view.basic feeRecipient)))).insert
      tx.caller (touchedAccount (balanceIn view tx.caller) (tx.nonce + 1))

def nonceRevm : Revm where
  inspectTx := fun view tx _ =>
    if infoNonce (view.basic tx.caller) = tx.nonce then
      .ok (.success 21000 (.call []) [], nonceDiff view tx)
    else .error .transaction
  exceeds := fun _ _ _ _ => false
  pendingQuery := fun _ _ _ => false
  traces := fun _ _ _ _ => none

theorem nonceRevm_ok {view : StateView} {tx : TxEnv} {ctx : BlockExecContext}
    {result : ExecutionResult} {state : StateDiff}
    (h : nonceRevm.inspectTx view tx ctx = .ok (result, state)) :
    infoNonce (view.basic tx.caller) = tx.nonce ∧ state = nonceDiff view tx := by
  simp only [nonceRevm] at h
  split_ifs at h with hmatch
  exact ⟨hmatch, (Prod.mk.inj (Except.ok.inj h)).2.symm⟩

theorem nonceRevm_rules (signers : Set Address) : NonceRules nonceRevm signers where
  matched := fun _ _ _ _ _ h => (nonceRevm_ok h).1
  consumed := by
    intro view tx ctx result state h
    obtain ⟨-, rfl⟩ := nonceRevm_ok h
    exact ⟨_, (OrdMap.get_insert ..).trans (if_pos rfl), rfl, Nat.lt_succ_self _⟩
  kept := by
    intro view tx ctx result state a account h ha hget
    obtain ⟨hmatch, rfl⟩ := nonceRevm_ok h
    rw [nonceDiff, OrdMap.get_insert] at hget
    split_ifs at hget with hcaller
    · obtain rfl := Option.some.inj hget
      refine ⟨rfl, ?_, fun huntouched => absurd huntouched (by simp [touchedAccount])⟩
      rw [hcaller, hmatch]
      exact Nat.le_succ _
    · rw [OrdMap.get_insert] at hget
      split_ifs at hget with hrecipient
      · obtain rfl := Option.some.inj hget
        refine ⟨rfl, ?_, fun huntouched => absurd huntouched (by simp [touchedAccount])⟩
        rw [hrecipient]
        exact le_refl _
      · exact absurd hget (by simp)
  rewarded := by
    intro view tx ctx result state h hsigner
    obtain ⟨-, rfl⟩ := nonceRevm_ok h
    rw [nonceDiff, OrdMap.get_insert, OrdMap.get_insert, if_pos rfl]
    split_ifs
    · rfl
    · rfl

def sampleNode : NodeState Unit := .init emptyWorld ⟨false, .empty, zeroArr 20⟩

def submitNode (b : UInt8) (s : NodeState Unit) : NodeState Unit :=
  commitBumps [] { s with
    chain := (submitTx sampleCrypto (evm sampleCrypto nonceRevm sampleTrie) 0 .ethSigned [b]
      samplePrincipal s.chain).2 }

def nextNode (s : NodeState Unit) : NodeState Unit :=
  match produceBlock sampleCrypto (evm sampleCrypto nonceRevm sampleTrie) sampleEnv 1 s.chain with
  | some (_, t) => commitBumps
      (committedDiffs sampleCrypto nonceRevm sampleTrie sampleEnv 1 s.chain) { s with chain := t }
  | none => s

abbrev sampleProduction : NodeOp := .chain (.produceBlock sampleEnv 1)

def sampleCalls : Set SubmitCall :=
  {.tx .ethSigned [1] samplePrincipal, .tx .ethSigned [2] samplePrincipal}

theorem history_submitNode {s : NodeState Unit} {blocks : List BlockData} (b : UInt8)
    (hb : SubmitCall.tx .ethSigned [b] samplePrincipal ∈ sampleCalls)
    (h : History sampleCrypto nonceRevm sampleTrie (Submits sampleCalls) sampleNode s blocks) :
    History sampleCrypto nonceRevm sampleTrie (Submits sampleCalls) sampleNode (submitNode b s)
      (blocks ++ []) := by
  have hallowed : Submits sampleCalls s (.chain (.submitTx 0 [b] samplePrincipal)) := by
    rintro call ⟨⟩
    exact hb
  exact h.step hallowed (.chain (.submitTx 0 [b] samplePrincipal _))

theorem history_nextNode {s : NodeState Unit} {blocks : List BlockData}
    (h : History sampleCrypto nonceRevm sampleTrie (Submits sampleCalls) sampleNode s blocks)
    (hproduced : (produceBlock sampleCrypto (evm sampleCrypto nonceRevm sampleTrie) sampleEnv 1
      s.chain).isSome) :
    History sampleCrypto nonceRevm sampleTrie (Submits sampleCalls) sampleNode (nextNode s)
      (blocks ++ producedBlocks sampleCrypto nonceRevm sampleTrie s.chain sampleProduction) := by
  obtain ⟨⟨r, t⟩, hrun⟩ := Option.isSome_iff_exists.mp hproduced
  have hallowed : Submits sampleCalls s sampleProduction := fun _ hcall =>
    absurd hcall (by simp [ChainOp.call])
  rw [nextNode, hrun]
  exact h.step hallowed (.chain (.produceBlock hrun))

theorem sampleCalls_collision_free :
    Set.InjOn sampleCrypto.keccak256 (SubmitCall.idPreimage sampleCrypto '' sampleCalls) := by
  rintro _ ⟨x, hx, rfl⟩ _ ⟨y, hy, rfl⟩ hsame
  rcases hx with rfl | rfl
  · rcases hy with rfl | rfl
    · rfl
    · exact absurd hsame (by decide +kernel)
  · rcases hy with rfl | rfl
    · exact absurd hsame (by decide +kernel)
    · rfl

theorem sampleNode_included_once :
    ∃ s blocks, History sampleCrypto nonceRevm sampleTrie (Submits sampleCalls) sampleNode s blocks ∧
      blocks.length = 2 ∧ (blocks.flatMap BlockData.txIds).Nodup := by
  have hfirst := history_submitNode 1 (.inl rfl) .start
  have hblock := history_nextNode hfirst (by decide +kernel)
  have hsecond := history_submitNode 2 (.inr rfl) hblock
  have hblocks := history_nextNode hsecond (by decide +kernel)
  have hresubmitted := history_submitNode 1 (.inl rfl) hblocks
  exact ⟨_, _, hresubmitted, by decide +kernel,
    tx_included_once (nonceRevm_rules _) sampleCalls_collision_free hresubmitted⟩

end Kasane.Node
