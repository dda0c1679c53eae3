import Kasane.Exec.Fees
import Kasane.Exec.ProduceCases
import Kasane.Lib.NonceLedger

namespace Kasane.Exec

open BigEndian Codec Word Chain

def infoNonce (info : Option AccountInfo) : Nat := (info.map AccountInfo.nonce).getD 0

-- what the execution engine promises about nonces: a transaction runs at its sender's nonce and
-- uses it up, and nothing that it does to the account of any other signer takes its nonce back
structure NonceRules (revm : Revm) (signers : Set Address) : Prop where
  matched : ∀ view tx ctx result state, revm.inspectTx view tx ctx = .ok (result, state) →
    infoNonce (view.basic tx.caller) = tx.nonce
  consumed : ∀ view tx ctx result state, revm.inspectTx view tx ctx = .ok (result, state) →
    ∃ account, state.get tx.caller = some account ∧ account.touched = true ∧
      tx.nonce < account.info.nonce
  kept : ∀ view tx ctx result state a account, revm.inspectTx view tx ctx = .ok (result, state) →
    a ∈ signers → state.get a = some account →
      account.selfdestructed = false ∧ infoNonce (view.basic a) ≤ account.info.nonce ∧
        (account.touched = false → account.info.nonce = infoNonce (view.basic a))
  rewarded : ∀ view tx ctx result state, revm.inspectTx view tx ctx = .ok (result, state) →
    feeRecipient ∈ signers → (state.get feeRecipient).isSome

variable {c : Crypto}

namespace RevmStableDb

def nonceOf (db : RevmStableDb) (address : Address) : Nat := infoNonce (db.basic address)

theorem nonceOf_commit_none (db : RevmStableDb) {diff : StateDiff} {address : Address}
    (h : diff.get address = none) : (db.commit c diff).nonceOf address = db.nonceOf address := by
  rw [nonceOf, nonceOf, basic, basic, get_commit, h]
  rfl

theorem nonceOf_commit_some (db : RevmStableDb) {diff : StateDiff} {address : Address}
    {account : Account} (h : diff.get address = some account)
    (hkept : account.selfdestructed = false) :
    (db.commit c diff).nonceOf address = account.info.nonce := by
  rw [nonceOf, basic, get_commit, h, Option.elim_some, accountAfter, hkept, Bool.false_or]
  split_ifs with hempty
  · have hzero := of_decide_eq_true (Bool.and_eq_true_iff.mp hempty).1
    exact hzero.2.2.symm
  · rfl

end RevmStableDb

namespace CacheDb

def nonceOf (x : CacheDb) (address : Address) : Nat := infoNonce (x.basic address)

theorem nonceOf_new (db : RevmStableDb) (address : Address) :
    (new c db).nonceOf address = db.nonceOf address := by
  simp only [nonceOf, basic, new, OrdMap.get_empty, RevmStableDb.nonceOf]

theorem nonceOf_commit_unchanged (x : CacheDb) {diff : StateDiff} {address : Address}
    (h : ∀ account, diff.get address = some account → account.touched = false) :
    (x.commit c diff).nonceOf address = x.nonceOf address := by
  rw [nonceOf, basic_commit, nonceOf, basic_eq]
  cases hget : diff.get address with
  | none => rfl
  | some account => rw [Option.elim_some, accountAfter, if_pos (h account hget)]

theorem nonceOf_commit_some (x : CacheDb) {diff : StateDiff} {address : Address}
    {account : Account} (h : diff.get address = some account) (htouched : account.touched = true)
    (hkept : account.selfdestructed = false) :
    (x.commit c diff).nonceOf address = account.info.nonce := by
  rw [nonceOf, basic_commit, h, Option.elim_some, accountAfter, htouched, updateAccount, hkept]
  by_cases hcreated : account.created
  · simp [hcreated, infoOf, insertedInfo, infoNonce]
  · by_cases hcleared : ((x.accounts.get address).getD (.default c)).accountState = .storageCleared
    · simp [hcreated, hcleared, infoOf, insertedInfo, infoNonce]
    · simp [hcreated, hcleared, infoOf, insertedInfo, infoNonce]

end CacheDb

-- the same promise for the changes that the chain commits, fee portion included
structure Advancing (signers : Set Address) (db : CacheDb) (diff : StateDiff) : Prop where
  kept : ∀ a ∈ signers, ∀ account, diff.get a = some account →
    account.selfdestructed = false ∧ db.nonceOf a ≤ account.info.nonce ∧
      (account.touched = false → account.info.nonce = db.nonceOf a)

variable {revm : Revm} {signers : Set Address} {db db' : CacheDb} {diff : StateDiff}

theorem get_patched {parent : RevmStableDb} {state : StateDiff} {gasUsed baseFee : Nat}
    {a : Address} {account : Account} (hpresent : a = feeRecipient → (state.get a).isSome)
    (h : (addBaseFeePortionToRecipient c parent state gasUsed baseFee).get a = some account) :
    ∃ before, state.get a = some before ∧ account.selfdestructed = before.selfdestructed ∧
      account.info.nonce = before.info.nonce ∧
        (account.touched = true ∨ account = before) := by
  rw [addBaseFeePortionToRecipient] at h
  dsimp only at h
  split_ifs at h
  · exact ⟨account, h, rfl, rfl, .inr rfl⟩
  · exact ⟨account, h, rfl, rfl, .inr rfl⟩
  · rw [OrdMap.get_insert] at h
    split_ifs at h with hself
    · subst hself
      obtain ⟨before, hbefore⟩ := Option.isSome_iff_exists.mp (hpresent rfl)
      rw [hbefore, Option.getD_some] at h
      obtain rfl := Option.some.inj h
      exact ⟨before, hbefore, rfl, rfl, .inl rfl⟩
    · exact ⟨account, h, rfl, rfl, .inr rfl⟩

theorem get_patched_of_some {parent : RevmStableDb} {state : StateDiff} {gasUsed baseFee : Nat}
    {a : Address} {before : Account} (h : state.get a = some before) :
    ∃ account, (addBaseFeePortionToRecipient c parent state gasUsed baseFee).get a = some account ∧
      account.info.nonce = before.info.nonce ∧ (before.touched = true → account.touched = true) := by
  rw [addBaseFeePortionToRecipient]
  dsimp only
  split_ifs
  · exact ⟨before, h, rfl, id⟩
  · exact ⟨before, h, rfl, id⟩
  · rw [OrdMap.get_insert]
    split_ifs with hself
    · subst hself
      rw [h, Option.getD_some]
      exact ⟨_, rfl, rfl, fun _ => rfl⟩
    · exact ⟨before, h, rfl, id⟩

theorem advancing_patched (rules : NonceRules revm signers) {tx : TxEnv} {ctx : BlockExecContext}
    {result : ExecutionResult} {state : StateDiff} (parent : RevmStableDb)
    (h : revm.inspectTx (db.view c) tx ctx = .ok (result, state)) :
    Advancing signers db
      (addBaseFeePortionToRecipient c parent state result.gasUsed.toNat ctx.baseFee) := by
  constructor
  intro a ha account hget
  obtain ⟨before, hbefore, hdestructed, hnonce, htouched⟩ := get_patched
    (fun heq => heq ▸ rules.rewarded _ _ _ _ _ h (heq ▸ ha)) hget
  obtain ⟨hkept, hle, hsame⟩ := rules.kept _ _ _ _ _ a before h ha hbefore
  refine ⟨hdestructed.trans hkept, hnonce ▸ hle, ?_⟩
  intro huntouched
  rcases htouched with htrue | rfl
  · exact absurd (huntouched.symm.trans htrue) (by simp)
  · exact hsame huntouched

theorem Advancing.cache_le (h : Advancing signers db diff) {a : Address} (ha : a ∈ signers) :
    db.nonceOf a ≤ (db.commit c diff).nonceOf a := by
  cases hget : diff.get a with
  | none => rw [CacheDb.nonceOf_commit_unchanged db (by simp [hget])]
  | some account =>
      obtain ⟨hkept, hle, -⟩ := h.kept a ha account hget
      cases htouched : account.touched with
      | false =>
          rw [CacheDb.nonceOf_commit_unchanged db]
          intro other hother
          obtain rfl := Option.some.inj (hget.symm.trans hother)
          exact htouched
      | true =>
          rw [CacheDb.nonceOf_commit_some db hget htouched hkept]
          exact hle

theorem Advancing.world_le (h : Advancing signers db diff) {world : RevmStableDb} {a : Address}
    (ha : a ∈ signers) (hbehind : world.nonceOf a ≤ db.nonceOf a) :
    world.nonceOf a ≤ (world.commit c diff).nonceOf a ∧
      (world.commit c diff).nonceOf a ≤ (db.commit c diff).nonceOf a := by
  cases hget : diff.get a with
  | none =>
      rw [RevmStableDb.nonceOf_commit_none world hget,
        CacheDb.nonceOf_commit_unchanged db (by simp [hget])]
      exact ⟨le_refl _, hbehind⟩
  | some account =>
      obtain ⟨hkept, hle, hsame⟩ := h.kept a ha account hget
      rw [RevmStableDb.nonceOf_commit_some world hget hkept]
      refine ⟨hbehind.trans hle, ?_⟩
      cases htouched : account.touched with
      | false =>
          rw [hsame htouched]
          exact h.cache_le ha
      | true => rw [CacheDb.nonceOf_commit_some db hget htouched hkept]

theorem executeTxOn_leaves {txId : TxId} {txIndex : Nat} {tx : TxEnv} {ctx : BlockExecContext}
    {limit : Option Nat} {e : ExecError}
    (h : executeTxOn c revm db txId txIndex tx ctx limit = (.error e, db')) :
    db' = db ∨ ∃ result state, revm.inspectTx (db.view c) tx ctx = .ok (result, state) ∧
      db' = db.commit c
        (addBaseFeePortionToRecipient c db.db state result.gasUsed.toNat ctx.baseFee) := by
  rw [executeTxOn] at h
  split at h
  · exact .inl (Prod.mk.inj h).2.symm
  · split_ifs at h
    · exact .inl (Prod.mk.inj h).2.symm
    · exact .inl (Prod.mk.inj h).2.symm
    · split at h
      · exact .inl (Prod.mk.inj h).2.symm
      · rename_i result state hinspect
        dsimp only at h
        split_ifs at h
        · exact .inr ⟨result, state, hinspect, (Prod.mk.inj h).2.symm⟩
        · exact absurd (Prod.mk.inj h).1 (by simp)

theorem cache_le_failed (rules : NonceRules revm signers) {txId : TxId} {txIndex : Nat} {tx : TxEnv}
    {ctx : BlockExecContext} {limit : Option Nat} {e : ExecError}
    (h : executeTxOn c revm db txId txIndex tx ctx limit = (.error e, db')) {a : Address}
    (ha : a ∈ signers) : db.nonceOf a ≤ db'.nonceOf a := by
  rcases executeTxOn_leaves h with rfl | ⟨result, state, hinspect, rfl⟩
  · exact le_refl _
  · exact (advancing_patched rules db.db hinspect).cache_le ha

-- what one executed transaction does to the nonces
structure Consumes (signers : Set Address) (db : CacheDb) (tx : TxEnv) (diff : StateDiff) : Prop where
  matched : db.nonceOf tx.caller = tx.nonce
  consumed : ∃ account, diff.get tx.caller = some account ∧ tx.nonce < account.info.nonce
  advancing : Advancing signers db diff

theorem consumes_executed (rules : NonceRules revm signers) {txId : TxId} {txIndex : Nat} {tx : TxEnv}
    {ctx : BlockExecContext} {limit : Option Nat} {outcome : ExecOutcome}
    (h : executeTxOn c revm db txId txIndex tx ctx limit = (.ok (outcome, diff), db')) :
    Consumes signers db tx diff := by
  obtain ⟨-, price, result, state, hdone⟩ := executeTxOn_ok c h
  rw [hdone.patched]
  refine ⟨rules.matched _ _ _ _ _ hdone.inspected, ?_, advancing_patched rules db.db hdone.inspected⟩
  obtain ⟨before, hbefore, -, hlt⟩ := rules.consumed _ _ _ _ _ hdone.inspected
  obtain ⟨account, haccount, hnonce, -⟩ := get_patched_of_some (c := c) hbefore
  exact ⟨account, haccount, hnonce ▸ hlt⟩

def stagedKey (i : StagedIncluded) : Address × Nat := (i.sender, i.nonce)

def worldAfter (c : Crypto) (parent : RevmStableDb) (diffs : List StateDiff) : RevmStableDb :=
  diffs.foldl (RevmStableDb.commit c) parent

theorem worldAfter_concat (parent : RevmStableDb) (diffs : List StateDiff) (diff : StateDiff) :
    worldAfter c parent (diffs ++ [diff]) = (worldAfter c parent diffs).commit c diff := by
  rw [worldAfter, List.foldl_append]
  rfl

variable {T : Type} {trie : TrieCommit T}

structure BlockSpends (signers : Set Address) (parent : RevmStableDb) (txs : List PreparedTx)
    (x : ExecState (evm c revm trie)) : Prop where
  spent : NonceLedger.Spent (worldAfter c parent x.diffs).nonceOf
    (x.included.map stagedKey)
  fresh : ∀ i ∈ x.included, parent.nonceOf i.sender ≤ i.nonce
  world_le : ∀ a ∈ signers, parent.nonceOf a ≤ (worldAfter c parent x.diffs).nonceOf a
  cache_ge : ∀ a ∈ signers, (worldAfter c parent x.diffs).nonceOf a ≤ x.cache.nonceOf a
  staged : ∀ i ∈ x.included, ∃ tx ∈ txs, i.txId = tx.txId ∧ stagedKey i = (tx.txEnv.caller, tx.txEnv.nonce)

theorem blockSpends_start (parent : RevmStableDb) (txs : List PreparedTx) (tick : Nat)
    (drops : List QueuedDrop) : @BlockSpends c revm T trie signers parent txs
      ⟨.new c parent, tick, 0, drops, [], []⟩ where
  spent := NonceLedger.spent_nil _
  fresh := fun _ h => absurd h List.not_mem_nil
  world_le := fun _ _ => le_refl _
  cache_ge := fun a _ => le_of_eq (CacheDb.nonceOf_new parent a).symm
  staged := fun _ h => absurd h List.not_mem_nil

theorem blockSpends_ran (rules : NonceRules revm signers) {parent : RevmStableDb}
    {txs : List PreparedTx} {ctx : BlockExecContext} {x : ExecState (evm c revm trie)}
    {tx : PreparedTx} {limit : Option Nat} {outcome : ExecOutcome} {cache : CacheDb} {tick gas : Nat}
    {drops : List QueuedDrop} (hcallers : ∀ tx ∈ txs, tx.txEnv.caller ∈ signers) (htx : tx ∈ txs)
    (h : BlockSpends signers parent txs x)
    (hrun : executeTxOn c revm x.cache tx.txId x.included.length tx.txEnv ctx limit =
      (.ok (outcome, diff), cache)) :
    @BlockSpends c revm T trie signers parent txs
      ⟨CacheDb.commit c cache diff, tick, gas, drops, List.append x.diffs [diff],
        x.included ++ [⟨tx.txId, outcome, tx.txEnv.caller, tx.txEnv.nonce⟩]⟩ := by
  obtain ⟨hmatched, ⟨account, hget, hlt⟩, hadvancing⟩ := consumes_executed rules hrun
  have hsigner := hcallers tx htx
  obtain ⟨hkept, -, -⟩ := hadvancing.kept _ hsigner account hget
  obtain ⟨rfl, -⟩ := executeTxOn_ok c hrun
  have hworld : worldAfter c parent (List.append x.diffs [diff]) =
      (worldAfter c parent x.diffs).commit c diff := worldAfter_concat parent x.diffs diff
  have hstep (a : Address) (ha : a ∈ signers) := hadvancing.world_le (c := c) ha (h.cache_ge a ha)
  have hsigners : ∀ i ∈ x.included, i.sender ∈ signers := by
    intro i hi
    obtain ⟨tx', htx', -, hkey⟩ := h.staged i hi
    obtain ⟨hsender, -⟩ := Prod.mk.inj hkey
    exact hsender ▸ hcallers tx' htx'
  have hbelow : (worldAfter c parent x.diffs).nonceOf tx.txEnv.caller ≤ tx.txEnv.nonce :=
    hmatched ▸ h.cache_ge _ hsigner
  constructor
  · change NonceLedger.Spent (worldAfter c parent (List.append x.diffs [diff])).nonceOf _
    rw [hworld, List.map_append]
    refine h.spent.spend ?_ hbelow ?_
    · intro key hkey
      obtain ⟨i, hi, rfl⟩ := List.mem_map.mp hkey
      exact (hstep i.sender (hsigners i hi)).1
    · change tx.txEnv.nonce < ((worldAfter c parent x.diffs).commit c diff).nonceOf tx.txEnv.caller
      rw [RevmStableDb.nonceOf_commit_some _ hget hkept]
      exact hlt
  · intro i hi
    rcases List.mem_append.mp hi with hi | hi
    · exact h.fresh i hi
    · obtain rfl := List.mem_singleton.mp hi
      exact (h.world_le _ hsigner).trans hbelow
  · intro a ha
    change parent.nonceOf a ≤ (worldAfter c parent (List.append x.diffs [diff])).nonceOf a
    rw [hworld]
    exact (h.world_le a ha).trans (hstep a ha).1
  · intro a ha
    change (worldAfter c parent (List.append x.diffs [diff])).nonceOf a ≤
      (CacheDb.commit c (CacheDb.commit c x.cache diff) diff).nonceOf a
    have htwice : CacheDb.commit c (CacheDb.commit c x.cache diff) diff =
        CacheDb.commit c x.cache diff := CacheDb.commit_twice x.cache diff
    rw [hworld, htwice]
    exact (hstep a ha).2
  · intro i hi
    rcases List.mem_append.mp hi with hi | hi
    · exact h.staged i hi
    · obtain rfl := List.mem_singleton.mp hi
      exact ⟨tx, htx, rfl, rfl⟩

theorem blockSpends_closed (rules : NonceRules revm signers) (parent : RevmStableDb)
    {txs : List PreparedTx} (ctx : BlockExecContext)
    (hcallers : ∀ tx ∈ txs, tx.txEnv.caller ∈ signers) :
    StagedClosed (evm c revm trie) ctx txs (BlockSpends signers parent txs) where
  dropped := fun _ _ _ h => ⟨h.spent, h.fresh, h.world_le, h.cache_ge, h.staged⟩
  failed := fun _ _ _ _ _ _ _ _ h hrun => ⟨h.spent, h.fresh, h.world_le,
    fun a ha => (h.cache_ge a ha).trans (cache_le_failed rules hrun ha), h.staged⟩
  ran := fun _ _ _ _ _ _ _ htx h hrun => blockSpends_ran rules hcallers htx h hrun

-- the sharper promise: the sender's nonce moves on by exactly one and no other signer's moves
structure NoncesCounted (revm : Revm) (signers : Set Address) : Prop extends
    NonceRules revm signers where
  counted : ∀ view tx ctx result state account, revm.inspectTx view tx ctx = .ok (result, state) →
    state.get tx.caller = some account →
      account.info.nonce = tx.nonce + 1 ∧ account.info.nonce ≤ u64Max
  others : ∀ view tx ctx result state a account, revm.inspectTx view tx ctx = .ok (result, state) →
    a ∈ signers → a ≠ tx.caller → state.get a = some account →
      account.info.nonce = infoNonce (view.basic a)

structure CountsOne (signers : Set Address) (db : CacheDb) (tx : TxEnv) (diff : StateDiff) : Prop where
  caller : ∃ account, diff.get tx.caller = some account ∧ account.touched = true ∧
    account.selfdestructed = false ∧ account.info.nonce = db.nonceOf tx.caller + 1 ∧
      account.info.nonce ≤ u64Max
  others : ∀ a ∈ signers, a ≠ tx.caller → ∀ account, diff.get a = some account →
    account.selfdestructed = false ∧ account.info.nonce = db.nonceOf a

theorem countsOne_executed (rules : NoncesCounted revm signers) {txId : TxId} {txIndex : Nat}
    {tx : TxEnv} {ctx : BlockExecContext} {limit : Option Nat} {outcome : ExecOutcome}
    (hsigner : tx.caller ∈ signers)
    (h : executeTxOn c revm db txId txIndex tx ctx limit = (.ok (outcome, diff), db')) :
    CountsOne signers db tx diff := by
  obtain ⟨-, price, result, state, hdone⟩ := executeTxOn_ok c h
  have hrun := hdone.inspected
  have hmatched : db.nonceOf tx.caller = tx.nonce := rules.matched _ _ _ _ _ hrun
  have hadvancing := advancing_patched rules.toNonceRules db.db hrun
  rw [hdone.patched]
  constructor
  · obtain ⟨before, hbefore, htouched, -⟩ := rules.consumed _ _ _ _ _ hrun
    obtain ⟨hnext, hfits⟩ := rules.counted _ _ _ _ _ before hrun hbefore
    obtain ⟨account, haccount, hnonce, hstill⟩ := get_patched_of_some (c := c) hbefore
    obtain ⟨hkept, -, -⟩ := hadvancing.kept _ hsigner account haccount
    refine ⟨account, haccount, hstill htouched, hkept, ?_, hnonce ▸ hfits⟩
    rw [hnonce, hnext, hmatched]
  · intro a ha hne account haccount
    obtain ⟨before, hbefore, -, hnonce, -⟩ := get_patched
      (fun heq => heq ▸ rules.rewarded _ _ _ _ _ hrun (heq ▸ ha)) haccount
    obtain ⟨hkept, -, -⟩ := hadvancing.kept a ha account haccount
    exact ⟨hkept, hnonce.trans (rules.others _ _ _ _ _ a before hrun ha hne hbefore)⟩

theorem CountsOne.cache {tx : TxEnv} (h : CountsOne signers db tx diff) {a : Address}
    (ha : a ∈ signers) :
    (db.commit c diff).nonceOf a = db.nonceOf a + if a = tx.caller then 1 else 0 := by
  by_cases hcaller : a = tx.caller
  · obtain ⟨account, hget, htouched, hkept, hnonce, -⟩ := h.caller
    rw [if_pos hcaller, hcaller, CacheDb.nonceOf_commit_some db hget htouched hkept, hnonce]
  · rw [if_neg hcaller, Nat.add_zero]
    cases hget : diff.get a with
    | none => exact CacheDb.nonceOf_commit_unchanged db (by simp [hget])
    | some account =>
        obtain ⟨hkept, hnonce⟩ := h.others a ha hcaller account hget
        cases htouched : account.touched with
        | false =>
            refine CacheDb.nonceOf_commit_unchanged db (fun other hother => ?_)
            obtain rfl := Option.some.inj (hget.symm.trans hother)
            exact htouched
        | true => rw [CacheDb.nonceOf_commit_some db hget htouched hkept, hnonce]

theorem CountsOne.world {tx : TxEnv} (h : CountsOne signers db tx diff) {world : RevmStableDb}
    {a : Address} (ha : a ∈ signers) (hsame : world.nonceOf a = db.nonceOf a) :
    (world.commit c diff).nonceOf a = world.nonceOf a + if a = tx.caller then 1 else 0 := by
  by_cases hcaller : a = tx.caller
  · obtain ⟨account, hget, -, hkept, hnonce, -⟩ := h.caller
    rw [if_pos hcaller, hsame, hcaller, RevmStableDb.nonceOf_commit_some world hget hkept, hnonce]
  · rw [if_neg hcaller, Nat.add_zero]
    cases hget : diff.get a with
    | none => exact RevmStableDb.nonceOf_commit_none world hget
    | some account =>
        obtain ⟨hkept, hnonce⟩ := h.others a ha hcaller account hget
        rw [RevmStableDb.nonceOf_commit_some world hget hkept, hnonce, hsame]

def timesSender (included : List StagedIncluded) (a : Address) : Nat :=
  (included.map StagedIncluded.sender).count a

theorem timesSender_concat (included : List StagedIncluded) (i : StagedIncluded) (a : Address) :
    timesSender (included ++ [i]) a = timesSender included a + if a = i.sender then 1 else 0 := by
  rw [timesSender, List.map_append, List.count_append, List.map_singleton, List.count_singleton,
    timesSender]
  by_cases h : a = i.sender
  · simp [h]
  · simp [h, Ne.symm h]

structure BlockCounts (signers : Set Address) (parent : RevmStableDb)
    (x : ExecState (isolate (evm c revm trie))) : Prop where
  cached : ∀ a ∈ signers, (worldAfter c parent x.diffs).nonceOf a = x.cache.nonceOf a
  counted : ∀ a ∈ signers, (worldAfter c parent x.diffs).nonceOf a =
    parent.nonceOf a + timesSender x.included a
  fits : ∀ a ∈ signers, timesSender x.included a = 0 ∨
    (worldAfter c parent x.diffs).nonceOf a ≤ u64Max

theorem blockCounts_start (parent : RevmStableDb) (tick : Nat) (drops : List QueuedDrop) :
    @BlockCounts c revm T trie signers parent
      ⟨.new c parent, tick, 0, drops, [], []⟩ where
  cached := fun a _ => (CacheDb.nonceOf_new parent a).symm
  counted := fun _ _ => rfl
  fits := fun _ _ => .inl rfl

theorem blockCounts_ran (rules : NoncesCounted revm signers) {parent : RevmStableDb}
    {ctx : BlockExecContext} {x : ExecState (isolate (evm c revm trie))} {tx : PreparedTx}
    {limit : Option Nat} {outcome : ExecOutcome} {cache : CacheDb} {tick gas : Nat}
    {drops : List QueuedDrop} (hsigner : tx.txEnv.caller ∈ signers)
    (h : BlockCounts signers parent x)
    (hrun : executeTxOn c revm x.cache tx.txId x.included.length tx.txEnv ctx limit =
      (.ok (outcome, diff), cache)) :
    @BlockCounts c revm T trie signers parent
      ⟨CacheDb.commit c cache diff, tick, gas, drops, List.append x.diffs [diff],
        x.included ++ [⟨tx.txId, outcome, tx.txEnv.caller, tx.txEnv.nonce⟩]⟩ := by
  have hone := countsOne_executed rules hsigner hrun
  obtain ⟨rfl, -⟩ := executeTxOn_ok c hrun
  have hworld : worldAfter c parent (List.append x.diffs [diff]) =
      (worldAfter c parent x.diffs).commit c diff := worldAfter_concat parent x.diffs diff
  have htwice : CacheDb.commit c (CacheDb.commit c x.cache diff) diff =
      CacheDb.commit c x.cache diff := CacheDb.commit_twice x.cache diff
  have hstep (a : Address) (ha : a ∈ signers) := hone.world (c := c) ha (h.cached a ha)
  constructor
  · intro a ha
    change (worldAfter c parent (List.append x.diffs [diff])).nonceOf a =
      (CacheDb.commit c (CacheDb.commit c x.cache diff) diff).nonceOf a
    rw [hworld, htwice, hstep a ha, hone.cache ha, h.cached a ha]
  · intro a ha
    change (worldAfter c parent (List.append x.diffs [diff])).nonceOf a = _
    rw [hworld, hstep a ha, timesSender_concat, h.counted a ha, Nat.add_assoc]
  · intro a ha
    change _ ∨ (worldAfter c parent (List.append x.diffs [diff])).nonceOf a ≤ u64Max
    rw [hworld, timesSender_concat]
    by_cases hcaller : a = tx.txEnv.caller
    · obtain ⟨account, hget, -, hkept, -, hfits⟩ := hone.caller
      right
      rw [hcaller, RevmStableDb.nonceOf_commit_some _ hget hkept]
      exact hfits
    · rw [hstep a ha, if_neg hcaller]
      exact h.fits a ha

theorem isolate_cases {W : Type} {evm : Evm W} {cache cache' : evm.Cache} {id : TxId} {index : Nat}
    {tx : TxEnv} {ctx : BlockExecContext} {limit : Option Nat}
    {r : Except ExecError (ExecOutcome × evm.Diff)}
    (h : (isolate evm).execute cache id index tx ctx limit = (r, cache')) :
    (∃ e, r = .error e ∧ cache' = cache) ∨
      evm.execute cache id index tx ctx limit = (r, cache') := by
  dsimp only [isolate] at h
  split at h
  · rename_i done cache'' hexec
    obtain ⟨rfl, rfl⟩ := Prod.mk.inj h
    exact .inr hexec
  · rename_i e cache'' hexec
    obtain ⟨rfl, rfl⟩ := Prod.mk.inj h
    exact .inl ⟨e, rfl, rfl⟩

theorem blockCounts_closed (rules : NoncesCounted revm signers) (parent : RevmStableDb)
    {txs : List PreparedTx} (ctx : BlockExecContext)
    (hcallers : ∀ tx ∈ txs, tx.txEnv.caller ∈ signers) :
    StagedClosed (isolate (evm c revm trie)) ctx txs (BlockCounts signers parent) where
  dropped := fun _ _ _ h => ⟨h.cached, h.counted, h.fits⟩
  failed := by
    intro x tx limit e cache tick drops htx h hrun
    rcases isolate_cases hrun with ⟨-, -, rfl⟩ | hexec
    · exact ⟨h.cached, h.counted, h.fits⟩
    · rw [isolate_error hexec] at hrun
      obtain rfl := (Prod.mk.inj hrun).2
      exact ⟨h.cached, h.counted, h.fits⟩
  ran := by
    intro x tx limit outcome diff cache tick htx h hrun
    rcases isolate_cases hrun with ⟨e, herror, -⟩ | hexec
    · exact absurd herror (by simp)
    · exact blockCounts_ran rules (hcallers tx htx) h hexec

end Kasane.Exec
