import Kasane.Chain.NonceCache
import Kasane.Node.IncludedOnce

namespace Kasane.Node

open BigEndian Codec Word Chain Exec

variable {T : Type} {c : Crypto} {revm : Revm} {trie : TrieCommit T} {calls : Set SubmitCall}

-- what the cache of expected nonces is for: it repeats the accounts, and what a sender has
-- pending is the transaction that its account takes next
structure NoncesExact (c : Crypto) (revm : Revm) (trie : TrieCommit T) (calls : Set SubmitCall)
    (s : StableState (World T)) : Prop where
  cached : ∀ a n, s.senderExpectedNonce.get a = some n → n = (evm c revm trie).accountNonce s.world a
  pending : ∀ id key, s.pendingMetaByTxId.get id = some key →
    s.senderExpectedNonce.get key.sender = some key.nonce
  payload : ∀ id key, s.pendingMetaByTxId.get id = some key → ∃ value,
    s.txStore.get id = some value ∧ ∃ call ∈ calls, Submitted c call value key.sender key.nonce

-- a block may be produced when nothing that it executes has an oversized result
def Undersized (c : Crypto) (revm : Revm) (trie : TrieCommit T) (s : NodeState T) : NodeOp → Prop
  | .chain (.produceBlock env maxTxs) => NoneOversized c revm trie env maxTxs s.chain
  | _ => True

def CleanSubmits (c : Crypto) (revm : Revm) (trie : TrieCommit T) (calls : Set SubmitCall)
    (s : NodeState T) (op : NodeOp) : Prop :=
  Submits calls s op ∧ Undersized c revm trie s op

theorem accountNonce_eq (w : World T) (a : Address) :
    (evm c revm trie).accountNonce w a = w.db.nonceOf a := by
  change ((w.db.accounts.get a).map AccountVal.nonce).getD 0 = _
  rw [RevmStableDb.nonceOf, RevmStableDb.basic]
  cases w.db.accounts.get a <;> rfl

structure NonceSound (c : Crypto) (revm : Revm) (trie : TrieCommit T) (calls : Set SubmitCall)
    (s : StableState (World T)) : Prop where
  pool : ∃ p, Consistent c False s p
  filed : Filed c calls s
  keyed : Keyed c calls s
  nonces : NonceCached (signers c calls) ((evm c revm trie).accountNonce s.world) s

theorem nonceSound_init (world : World T) : NonceSound c revm trie calls (.init world) :=
  ⟨⟨.empty, consistent_init world⟩, filed_init calls world, keyed_init world, nonceCached_init world⟩

theorem NonceSound.exact {s : StableState (World T)} (h : NonceSound c revm trie calls s) :
    NoncesExact c revm trie calls s where
  cached := fun a n hget => (h.nonces.cached a n hget).2
  pending := h.nonces.pending
  payload := by
    intro id key hkey
    obtain ⟨p, hp⟩ := h.pool
    obtain ⟨e, he, -⟩ := (hp.indexed.byTxId.get_own id key).mp hkey
    obtain ⟨value, tx, hvalue, -⟩ := hp.backed.stored he
    exact ⟨value, hvalue, h.keyed id key value hkey hvalue⟩

theorem isolated_blockCounts (rules : NoncesCounted revm (signers c calls)) {env : CallEnv}
    {maxTxs : Nat} {s : StableState (World T)} {x : ExecState (evm c revm trie)}
    (hfiled : Filed c calls s) (hclean : NoneOversized c revm trie env maxTxs s)
    (hrun : executeBlock c (evm c revm trie) env maxTxs s = .ok x) :
    BlockCounts (signers c calls) s.world.db x.isolated :=
  (blockCounts_closed rules s.world.db (blockContext env s) (signers_staged hfiled)).executeBlock
    (fun tick drops => blockCounts_start s.world.db tick drops)
    (executeBlock_of_noneOversized hclean hrun)

theorem nonceCached_committed (rules : NoncesCounted revm (signers c calls)) {env : CallEnv}
    {maxTxs : Nat} {s t : StableState (World T)} {outcome : ProduceBlockOutcome}
    {x : ExecState (evm c revm trie)} {root : trie.Root} {world : World T}
    (hs : NonceSound c revm trie calls s) (hclean : NoneOversized c revm trie env maxTxs s)
    (h : Committed c (evm c revm trie) env maxTxs s t outcome x root world) :
    NonceCached (signers c calls) ((evm c revm trie).accountNonce t.world) t := by
  obtain ⟨p, hp⟩ := hs.pool
  have hcounts := isolated_blockCounts rules hs.filed hclean h.executed
  have hblock : BlockSpends (signers c calls) s.world.db (stagedTxs c env maxTxs s) x :=
    (blockSpends_closed rules.toNonceRules s.world.db (blockContext env s)
      (signers_staged hs.filed)).executeBlock
      (fun tick drops => blockSpends_start s.world.db _ tick drops) h.executed
  have hpending : Pending p (x.included.map StagedIncluded.txId) :=
    (pending_selectReady hp.indexed s.chainState.baseFee maxTxs).subperm
      ((List.sublist_append_right ..).subperm.trans h.selected)
  have hsenders : ∀ i ∈ x.included, i.sender ∈ signers c calls := by
    intro i hi
    obtain ⟨tx, htx, -, hkey⟩ := hblock.staged i hi
    have hsender : i.sender = tx.txEnv.caller := congrArg Prod.fst hkey
    rw [hsender]
    exact signers_staged hs.filed tx htx
  have hqueued : ∀ i ∈ x.included, ∃ key, s.pendingMetaByTxId.get i.txId = some key ∧
      key.sender = i.sender := by
    intro i hi
    obtain ⟨tx, htx, hid, hkey⟩ := hblock.staged i hi
    obtain ⟨e, he⟩ := hpending.pending _ (List.mem_map_of_mem hi)
    have hmeta := hp.indexed.byTxId.get_some he
    refine ⟨e.key, hmeta, ?_⟩
    rw [hid] at hmeta
    exact (sender_staged hs.keyed htx hmeta).trans (congrArg Prod.fst hkey).symm
  have hfits : ∀ a, (x.included.map StagedIncluded.sender).count a = 0 ∨
      (evm c revm trie).accountNonce s.world a +
        (x.included.map StagedIncluded.sender).count a ≤ u64Max := by
    intro a
    by_cases ha : a ∈ signers c calls
    · rw [accountNonce_eq]
      refine (hcounts.fits a ha).imp_right (fun hle => ?_)
      rw [hcounts.counted a ha] at hle
      exact hle
    · refine .inl (List.count_eq_zero_of_not_mem (fun hmem => ha ?_))
      obtain ⟨i, hi, rfl⟩ := List.mem_map.mp hmem
      exact hsenders i hi
  obtain ⟨⟨m, hstate⟩, -⟩ := prepareBlock_prepares c env maxTxs s
  have hprepared : NonceCached (signers c calls) ((evm c revm trie).accountNonce s.world)
      { s with
        decodeSuppressUntil := m
        world := (evm c revm trie).applyRoot
          (x.diffs.foldl (evm c revm trie).commitDiff world) root } :=
    hs.nonces.fewer rfl (fun _ _ hkey => hkey)
  have hcommit := h.committed
  rw [hstate] at hcommit
  have hcounted := nonceCached_commitBlock hprepared (mempoolIndexes_of_consistent hp).single hqueued
    hfits hcommit
  constructor
  · intro a n hget
    obtain ⟨ha, hn⟩ := hcounted.cached a n hget
    refine ⟨ha, hn.trans ?_⟩
    rw [accountNonce_eq, accountNonce_eq, world_committed h]
    exact (hcounts.counted a ha).symm
  · exact hcounted.pending

theorem nonceCached_produceBlock (rules : NoncesCounted revm (signers c calls)) {env : CallEnv}
    {maxTxs : Nat} {s t : StableState (World T)} {r : Except ChainError ProduceBlockOutcome}
    (hs : NonceSound c revm trie calls s) (hclean : NoneOversized c revm trie env maxTxs s)
    (hrun : produceBlock c (evm c revm trie) env maxTxs s = some (r, t)) :
    NonceCached (signers c calls) ((evm c revm trie).accountNonce t.world) t := by
  cases produceBlock_cases hrun with
  | refused e m => exact hs.nonces.fewer rfl (fun _ _ hkey => hkey)
  | dropped e m drops selected =>
      have hsuppressed : Tidied c (evm c revm trie) ∅ s { s with decodeSuppressUntil := m } :=
        .single (.suppressed s m)
      exact hs.nonces.tidied (Set.empty_subset _) (hsuppressed.trans (tidied_applyDrops _ drops))
  | @unprepared diffs number timestamp parentHash reason world e m prepared =>
      have hworld : ∀ a, (evm c revm trie).accountNonce s.world a =
          (evm c revm trie).accountNonce world a := by
        intro a
        rw [← (Prod.mk.inj prepared).2]
        rfl
      exact (hs.nonces.congr hworld).fewer rfl (fun _ _ hkey => hkey)
  | committed h => exact nonceCached_committed rules hs hclean h

theorem NonceSound.still {s t : StableState (World T)} (h : NonceSound c revm trie calls s)
    (hpool : ∀ p, Consistent c False s p → Consistent c False t p) (hstore : t.txStore = s.txStore)
    (hmetas : t.pendingMetaByTxId = s.pendingMetaByTxId)
    (hexpected : t.senderExpectedNonce = s.senderExpectedNonce)
    (hnonces : ∀ a, (evm c revm trie).accountNonce s.world a = (evm c revm trie).accountNonce t.world a) :
    NonceSound c revm trie calls t where
  pool := h.pool.imp hpool
  filed := h.filed.forgets (.of_eq hstore)
  keyed := h.keyed.fewer (fun _ _ hkey => hmetas ▸ hkey) (.of_eq hstore)
  nonces := (h.nonces.congr hnonces).fewer hexpected (fun _ _ hkey => hmetas ▸ hkey)

theorem NonceSound.credited {s : StableState (World T)} (h : NonceSound c revm trie calls s)
    {db : RevmStableDb} {address : Address} {amount : Nat} {changed : Bool}
    (hcredit : creditAccount s.world.db address amount = some (db, changed)) :
    NonceSound c revm trie calls { s with world := { s.world with db := db } } := by
  refine h.still (fun p hp => ⟨hp.indexed, hp.backed, hp.archived, hp.bounded, hp.counted⟩) rfl rfl
    rfl (fun a => ?_)
  rw [accountNonce_eq, accountNonce_eq]
  exact nonceOf_credit hcredit a

theorem NonceSound.cleared {s : StableState (World T)} (h : NonceSound c revm trie calls s) :
    NonceSound c revm trie calls (clearMempoolOnUpgrade s) where
  pool := h.pool.elim (fun _ hp => ⟨.empty, consistent_cleared hp⟩)
  filed := h.filed.forgets (.of_eq rfl)
  keyed := fun _ _ _ hkey => absurd hkey (by simp [clearMempoolOnUpgrade])
  nonces := ⟨fun _ _ hget => absurd hget (by simp [clearMempoolOnUpgrade]),
    fun _ _ hkey => absurd hkey (by simp [clearMempoolOnUpgrade])⟩

theorem nonceSound_chainOp (rules : NoncesCounted revm (signers c calls)) {op : ChainOp}
    {s : NodeState T} {t : StableState (World T)} (hs : NonceSound c revm trie calls s.chain)
    (ok : CleanSubmits c revm trie calls s (.chain op)) (hrun : op.Runs c (evm c revm trie) s.chain t) :
    NonceSound c revm trie calls t where
  pool := hs.pool.elim (fun _ hp => consistent_op hp (fun hfalse => hfalse.elim) hrun)
  filed := filed_op hs.filed ok.1 hrun
  keyed := keyed_op hs.keyed ok.1 hrun
  nonces := by
    refine nonceCached_op hs.nonces ok.1 ?_ hrun
    rintro env maxTxs r rfl returns
    exact nonceCached_produceBlock rules hs ok.2 returns

theorem nonceSound_op (rules : NoncesCounted revm (signers c calls)) {op : NodeOp}
    {s t : NodeState T} (hs : NonceSound c revm trie calls s.chain)
    (ok : CleanSubmits c revm trie calls s op) (hrun : op.Runs c revm trie s t) :
    NonceSound c revm trie calls t.chain := by
  have hcredit {u : NodeState T} {address : Address} {amount : Nat}
      (h : creditWorld s address amount = .ok u) : NonceSound c revm trie calls u.chain := by
    obtain ⟨db, changed, hdb, heq⟩ := creditWorld_ok h
    rw [heq]
    exact hs.credited hdb
  cases hrun with
  | chain runs =>
      rw [commitBumps_chain]
      exact nonceSound_chainOp rules hs ok runs
  | creditBalance _ credits => exact hcredit credits
  | creditNativeDeposit credits =>
      rcases creditNativeDeposit_ok credits with heq | ⟨recipient, amount, u, hworld, heq⟩
      · rw [heq]
        exact hs
      · rw [heq]
        exact hcredit hworld
  | clearMempoolOnUpgrade s => exact hs.cleared
  | syncChainRuntimeDefaults s =>
      exact hs.still (fun p hp => ⟨hp.indexed, hp.backed, hp.archived, hp.bounded, hp.counted⟩)
        rfl rfl rfl (fun _ => rfl)
  | applyInstructionSoftLimits query update s =>
      exact hs.still (fun p hp => ⟨hp.indexed, hp.backed, hp.archived, hp.bounded, hp.counted⟩)
        rfl rfl rfl (fun _ => rfl)
  | addQueryPrecompileAllowedMethod key s => exact hs
  | removeQueryPrecompileAllowedMethod key s => exact hs
  | setRuntimeConfig config s => exact hs

theorem nonceSound_run (rules : NoncesCounted revm (signers c calls)) {world : World T}
    {config : RuntimeConfig} {s : NodeState T}
    (run : NodeRun c revm trie (CleanSubmits c revm trie calls) (.init world config) s) :
    NonceSound c revm trie calls s.chain := by
  induction run with
  | start => exact nonceSound_init world
  | step _ ok runs ih => exact nonceSound_op rules ih ok runs

theorem expected_nonces_exact (rules : NoncesCounted revm (signers c calls)) {world : World T}
    {config : RuntimeConfig} {s : NodeState T}
    (run : NodeRun c revm trie (CleanSubmits c revm trie calls) (.init world config) s) :
    NoncesExact c revm trie calls s.chain :=
  (nonceSound_run rules run).exact

def crowdedDiff (view : StateView) (tx : TxEnv) : StateDiff :=
  ((OrdMap.empty.insert feeRecipient
    (touchedAccount (balanceIn view feeRecipient) (infoNonce (view.basic feeRecipient)))).insert
      (sampleAddress 1) (touchedAccount (balanceIn view (sampleAddress 1))
        (infoNonce (view.basic (sampleAddress 1))))).insert
          tx.caller (touchedAccount (balanceIn view tx.caller) (tx.nonce + 1))

-- every transaction touches account 1, whose own transactions log too much
def crowdedRevm : Revm where
  inspectTx := fun view tx _ =>
    if infoNonce (view.basic tx.caller) = tx.nonce ∧ tx.nonce < u64Max then
      .ok (.success 21000 (.call [])
        (if tx.caller = sampleAddress 1 then List.replicate 65 sampleLog else []), crowdedDiff view tx)
    else .error .transaction
  exceeds := fun _ _ _ _ => false
  pendingQuery := fun _ _ _ => false
  traces := fun _ _ _ _ => none

theorem crowdedRevm_ok {view : StateView} {tx : TxEnv} {ctx : BlockExecContext}
    {result : ExecutionResult} {state : StateDiff}
    (h : crowdedRevm.inspectTx view tx ctx = .ok (result, state)) :
    infoNonce (view.basic tx.caller) = tx.nonce ∧ tx.nonce < u64Max ∧ state = crowdedDiff view tx := by
  dsimp only [crowdedRevm] at h
  split at h
  · rename_i hmatch
    exact ⟨hmatch.1, hmatch.2, (Prod.mk.inj (Except.ok.inj h)).2.symm⟩
  · exact absurd h (by simp)

theorem get_crowdedDiff_caller (view : StateView) (tx : TxEnv) :
    (crowdedDiff view tx).get tx.caller =
      some (touchedAccount (balanceIn view tx.caller) (tx.nonce + 1)) :=
  (OrdMap.get_insert ..).trans (if_pos rfl)

theorem get_crowdedDiff {view : StateView} {tx : TxEnv} {a : Address} {account : Account}
    (hne : a ≠ tx.caller) (h : (crowdedDiff view tx).get a = some account) :
    account = touchedAccount (balanceIn view a) (infoNonce (view.basic a)) := by
  rw [crowdedDiff, OrdMap.get_insert, if_neg hne, OrdMap.get_insert] at h
  split_ifs at h with hone
  · rw [hone]
    exact (Option.some.inj h).symm
  · rw [OrdMap.get_insert] at h
    split_ifs at h with hrecipient
    · rw [hrecipient]
      exact (Option.some.inj h).symm
    · exact absurd h (by simp)

theorem crowdedRevm_counted (signers : Set Address) : NoncesCounted crowdedRevm signers where
  matched := fun _ _ _ _ _ h => (crowdedRevm_ok h).1
  consumed := by
    intro view tx ctx result state h
    obtain ⟨-, -, rfl⟩ := crowdedRevm_ok h
    exact ⟨_, get_crowdedDiff_caller view tx, rfl, Nat.lt_succ_self _⟩
  kept := by
    intro view tx ctx result state a account h ha hget
    obtain ⟨hmatch, -, rfl⟩ := crowdedRevm_ok h
    by_cases hcaller : a = tx.caller
    · subst hcaller
      obtain rfl := Option.some.inj ((get_crowdedDiff_caller view tx).symm.trans hget)
      refine ⟨rfl, ?_, fun huntouched => absurd huntouched (by simp [touchedAccount])⟩
      rw [hmatch]
      exact Nat.le_succ _
    · obtain rfl := get_crowdedDiff hcaller hget
      exact ⟨rfl, le_refl _, fun _ => rfl⟩
  rewarded := by
    intro view tx ctx result state h hsigner
    obtain ⟨-, -, rfl⟩ := crowdedRevm_ok h
    rw [crowdedDiff, OrdMap.get_insert, OrdMap.get_insert, OrdMap.get_insert, if_pos rfl]
    split_ifs
    · rfl
    · rfl
    · rfl
  counted := by
    intro view tx ctx result state account h hget
    obtain ⟨-, hfits, rfl⟩ := crowdedRevm_ok h
    obtain rfl := Option.some.inj ((get_crowdedDiff_caller view tx).symm.trans hget)
    exact ⟨rfl, hfits⟩
  others := by
    intro view tx ctx result state a account h ha hne hget
    obtain ⟨-, -, rfl⟩ := crowdedRevm_ok h
    obtain rfl := get_crowdedDiff hne hget
    rfl

def crowdNode (bytes : List Bytes) : NodeState Unit :=
  { sampleNode with chain := queueOf crowdedRevm bytes }

theorem run_crowdNode {allowed : NodeState Unit → NodeOp → Prop}
    (hallowed : ∀ s b, allowed s (.chain (.submitTx 0 b samplePrincipal))) (bytes : List Bytes) :
    NodeRun sampleCrypto crowdedRevm sampleTrie allowed sampleNode (crowdNode bytes) := by
  have hstep (bytes : List Bytes) (s : NodeState Unit)
      (run : NodeRun sampleCrypto crowdedRevm sampleTrie allowed sampleNode s) :
      NodeRun sampleCrypto crowdedRevm sampleTrie allowed sampleNode
        { s with chain := bytes.foldl (fun s b => submitBytes crowdedRevm b s) s.chain } := by
    induction bytes generalizing s with
    | nil => exact run
    | cons b bytes ih => exact ih _ (run.step (hallowed s b) (.chain (.submitTx 0 b samplePrincipal _)))
  exact hstep bytes sampleNode .start

theorem crowdNode_exact :
    ∃ s, NodeRun sampleCrypto crowdedRevm sampleTrie
        (CleanSubmits sampleCrypto crowdedRevm sampleTrie Set.univ) sampleNode s ∧
      s.chain.senderExpectedNonce.get (sampleAddress 2) = some 1 ∧
      NoncesExact sampleCrypto crowdedRevm sampleTrie Set.univ s.chain := by
  have hselect := selectReady_insertionSort (s := queueOf crowdedRevm [[2], [5]])
    (i := [lastByteArr 32 [2], lastByteArr 32 [5]]) (by decide +kernel)
  obtain ⟨outcome, t, hproduced, hcheck⟩ := produced_of_check
    (r := produceBlock sampleCrypto (evm sampleCrypto crowdedRevm sampleTrie) sampleEnv 2
      (queueOf crowdedRevm [[2], [5]]))
    (fun _ t => decide (t.senderExpectedNonce.get (sampleAddress 2) = some 1))
    (by rw [produceBlock]; dsimp only; rw [hselect]; decide +kernel)
  have hclean : NoneOversized sampleCrypto crowdedRevm sampleTrie sampleEnv 2
      (queueOf crowdedRevm [[2], [5]]) := by
    apply noneOversized_of_check
    rw [executeBlock, stagedTxs, prepareBlock, hselect]
    decide +kernel
  have hallowed : CleanSubmits sampleCrypto crowdedRevm sampleTrie Set.univ (crowdNode [[2], [5]])
      (.chain (.produceBlock sampleEnv 2)) := ⟨fun _ _ => trivial, hclean⟩
  have hqueued : NodeRun sampleCrypto crowdedRevm sampleTrie
      (CleanSubmits sampleCrypto crowdedRevm sampleTrie Set.univ) sampleNode
      (crowdNode [[2], [5]]) := run_crowdNode (fun _ _ => ⟨fun _ _ => trivial, trivial⟩) _
  have hrun := hqueued.step hallowed (.chain (.produceBlock hproduced))
  refine ⟨_, hrun, ?_, expected_nonces_exact (crowdedRevm_counted _) hrun⟩
  rw [commitBumps_chain]
  exact of_decide_eq_true hcheck

theorem crowdNode_not_exact :
    NoncesCounted crowdedRevm (signers sampleCrypto Set.univ) ∧
      ∃ s, NodeRun sampleCrypto crowdedRevm sampleTrie (Submits Set.univ) sampleNode s ∧
        s.chain.senderExpectedNonce.get (sampleAddress 1) = some 0 ∧
        (evm sampleCrypto crowdedRevm sampleTrie).accountNonce s.chain.world (sampleAddress 1) = 1 ∧
        ¬ NoncesExact sampleCrypto crowdedRevm sampleTrie Set.univ s.chain := by
  have hselect := selectReady_insertionSort (s := queueOf crowdedRevm [[1], [2]])
    (i := [lastByteArr 32 [1], lastByteArr 32 [2]]) (by decide +kernel)
  obtain ⟨outcome, t, hproduced, hcheck⟩ := produced_of_check
    (r := produceBlock sampleCrypto (evm sampleCrypto crowdedRevm sampleTrie) sampleEnv 2
      (queueOf crowdedRevm [[1], [2]]))
    (fun _ t => decide (t.senderExpectedNonce.get (sampleAddress 1) = some 0) &&
      decide ((evm sampleCrypto crowdedRevm sampleTrie).accountNonce t.world (sampleAddress 1) = 1))
    (by rw [produceBlock]; dsimp only; rw [hselect]; decide +kernel)
  obtain ⟨hexpected, hnonce⟩ := Bool.and_eq_true_iff.mp hcheck
  have hcached := of_decide_eq_true hexpected
  have haccount := of_decide_eq_true hnonce
  have hallowed : Submits Set.univ (crowdNode [[1], [2]]) (.chain (.produceBlock sampleEnv 2)) :=
    fun _ _ => trivial
  have hqueued : NodeRun sampleCrypto crowdedRevm sampleTrie (Submits Set.univ) sampleNode
      (crowdNode [[1], [2]]) := run_crowdNode (fun _ _ _ _ => trivial) _
  have hrun := hqueued.step hallowed (.chain (.produceBlock hproduced))
  refine ⟨crowdedRevm_counted _, _, hrun, ?_⟩
  rw [commitBumps_chain]
  refine ⟨hcached, haccount, fun hexact => ?_⟩
  have hsame := hexact.cached _ _ hcached
  exact absurd (hsame.trans haccount) (by decide)

end Kasane.Node
