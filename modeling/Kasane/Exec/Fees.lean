import Mathlib.Tactic.Ring
import Kasane.Exec.Replay

namespace Kasane.Exec

open BigEndian Codec Word Chain

structure Charges where
  gasDebit : Nat
  moved : Int

def paidPrice (tx : TxEnv) (baseFee : Nat) : Nat :=
  match tx.gasPriorityFee with
  | none => tx.gasPrice
  | some priority => min tx.gasPrice (saturatingAdd u128Max baseFee priority)

structure ChargesFees (revm : Revm) (charges : StateView → TxEnv → BlockExecContext → Charges) :
    Prop where
  debit : ∀ view tx ctx result state, revm.inspectTx view tx ctx = .ok (result, state) →
    (charges view tx ctx).gasDebit = paidPrice tx ctx.baseFee * result.gasUsed.toNat
  paid : ∀ view tx ctx result state account, revm.inspectTx view tx ctx = .ok (result, state) →
    state.get feeRecipient = some account →
    account.selfdestructed = false ∧
      (account.info.balance : Int) = balanceIn view feeRecipient +
        ((paidPrice tx ctx.baseFee - ctx.baseFee) * result.gasUsed.toNat : Nat) +
          (charges view tx ctx).moved
  untouched : ∀ view tx ctx result state account, revm.inspectTx view tx ctx = .ok (result, state) →
    state.get feeRecipient = some account → account.touched = false →
      account.info.balance = balanceIn view feeRecipient
  absent : ∀ view tx ctx result state, revm.inspectTx view tx ctx = .ok (result, state) →
    state.get feeRecipient = none →
      (paidPrice tx ctx.baseFee - ctx.baseFee) * result.gasUsed.toNat = 0 ∧
        (charges view tx ctx).moved = 0

namespace RevmStableDb

def balanceOf (db : RevmStableDb) (address : Address) : Nat :=
  ((db.accounts.get address).map AccountVal.balance).getD 0

variable {c : Crypto}

def accountAfter (c : Crypto) (_ : Option AccountVal) (account : Account) : Option AccountVal :=
  if account.selfdestructed || (account.info.isEmpty c && account.touched) then none
  else some ⟨account.info.nonce, account.info.balance, account.info.codeHash⟩

theorem get_commitAccount_self (db : RevmStableDb) (e : Address × Account) :
    (db.commitAccount c e).accounts.get e.1 = accountAfter c (db.accounts.get e.1) e.2 := by
  rw [commitAccount, accountAfter]
  split_ifs
  · exact (OrdMap.get_remove ..).trans (if_pos rfl)
  · exact (OrdMap.get_insert ..).trans (if_pos rfl)

theorem get_commitAccount_of_ne (db : RevmStableDb) (e : Address × Account) (address : Address)
    (h : address ≠ e.1) : (db.commitAccount c e).accounts.get address = db.accounts.get address := by
  rw [commitAccount]
  split_ifs
  · exact (OrdMap.get_remove ..).trans (if_neg h)
  · exact (OrdMap.get_insert ..).trans (if_neg h)

theorem get_commit (db : RevmStableDb) (diff : StateDiff) (address : Address) :
    (db.commit c diff).accounts.get address =
      (diff.get address).elim (db.accounts.get address)
        (accountAfter c (db.accounts.get address)) :=
  OrdMap.get_foldl_keyed (fun db : RevmStableDb => db.accounts.get) (commitAccount c) (accountAfter c)
    get_commitAccount_self get_commitAccount_of_ne diff.keys_nodup db address

theorem balanceOf_commit_none (db : RevmStableDb) {diff : StateDiff} {address : Address}
    (h : diff.get address = none) : (db.commit c diff).balanceOf address = db.balanceOf address := by
  rw [balanceOf, get_commit, h]
  rfl

theorem balanceOf_commit_some (db : RevmStableDb) {diff : StateDiff} {address : Address}
    {account : Account} (h : diff.get address = some account)
    (hkept : account.selfdestructed = false) :
    (db.commit c diff).balanceOf address = account.info.balance := by
  rw [balanceOf, get_commit, h, Option.elim_some, accountAfter, hkept, Bool.false_or]
  split_ifs with hempty
  · have hzero := of_decide_eq_true (Bool.and_eq_true_iff.mp hempty).1
    exact hzero.2.1.symm
  · rfl

end RevmStableDb

namespace CacheDb

variable {c : Crypto}

def balanceOf (x : CacheDb) (address : Address) : Nat :=
  ((x.basic address).map AccountInfo.balance).getD 0

theorem balanceOf_new (db : RevmStableDb) (address : Address) :
    (new c db).balanceOf address = db.balanceOf address := by
  simp only [balanceOf, basic, new, OrdMap.get_empty, RevmStableDb.basic, RevmStableDb.balanceOf,
    Option.map_map]
  rfl

def infoOf (db : RevmStableDb) (address : Address) (account : Option DbAccount) :
    Option AccountInfo :=
  account.elim (db.basic address) (fun acc =>
    if acc.accountState = .notExisting then none else some acc.info)

theorem basic_eq (x : CacheDb) (address : Address) :
    x.basic address = infoOf x.db address (x.accounts.get address) := by
  rw [basic, infoOf]
  cases x.accounts.get address <;> rfl

theorem basic_commit (x : CacheDb) (diff : StateDiff) (address : Address) :
    (x.commit c diff).basic address =
      infoOf x.db address ((diff.get address).elim (x.accounts.get address)
        (accountAfter c (x.accounts.get address))) := by
  rw [basic_eq, get_commit, db_commit]

theorem balanceOf_commit_unchanged (x : CacheDb) {diff : StateDiff} {address : Address}
    (h : ∀ account, diff.get address = some account → account.touched = false) :
    (x.commit c diff).balanceOf address = x.balanceOf address := by
  rw [balanceOf, basic_commit, balanceOf, basic_eq]
  cases hget : diff.get address with
  | none => rfl
  | some account => rw [Option.elim_some, accountAfter, if_pos (h account hget)]

theorem balanceOf_commit_some (x : CacheDb) {diff : StateDiff} {address : Address}
    {account : Account} (h : diff.get address = some account) (htouched : account.touched = true)
    (hkept : account.selfdestructed = false) :
    (x.commit c diff).balanceOf address = account.info.balance := by
  rw [balanceOf, basic_commit, h, Option.elim_some, accountAfter, htouched, updateAccount, hkept]
  by_cases hcreated : account.created
  · simp [hcreated, infoOf, insertedInfo]
  · by_cases hcleared : ((x.accounts.get address).getD (.default c)).accountState = .storageCleared
    · simp [hcreated, hcleared, infoOf, insertedInfo]
    · simp [hcreated, hcleared, infoOf, insertedInfo]

end CacheDb

variable {c : Crypto} {revm : Revm} {charges : StateView → TxEnv → BlockExecContext → Charges}

def reward (item : Executed) (ctx : BlockExecContext) : Nat :=
  baseFeeReward item.outcome.receipt.gasUsed.toNat ctx.baseFee

def chargesOf (c : Crypto) (charges : StateView → TxEnv → BlockExecContext → Charges)
    (ctx : BlockExecContext) (item : Executed) : Charges :=
  charges (item.before.view c) item.tx.txEnv ctx

def Charged (c : Crypto) (charges : StateView → TxEnv → BlockExecContext → Charges)
    (ctx : BlockExecContext) (item : Executed) : Prop :=
  (chargesOf c charges ctx item).gasDebit =
      item.outcome.receipt.effectiveGasPrice.toNat * item.outcome.receipt.gasUsed.toNat ∧
    item.outcome.receipt.totalFee.toNat =
      item.outcome.receipt.effectiveGasPrice.toNat * item.outcome.receipt.gasUsed.toNat

def BidsBaseFee (ctx : BlockExecContext) (item : Executed) : Prop :=
  item.tx.txEnv.gasPriorityFee = none →
    item.tx.txEnv.gasPrice = ctx.baseFee ∨ item.outcome.receipt.gasUsed.toNat = 0

def recipientMissing (c : Crypto) (revm : Revm) (ctx : BlockExecContext) (item : Executed) : Bool :=
  match revm.inspectTx (item.before.view c) item.tx.txEnv ctx with
  | .ok (_, state) => (state.get feeRecipient).isNone
  | .error _ => false

def staleness (c : Crypto) (revm : Revm) (ctx : BlockExecContext) (parent : RevmStableDb)
    (item : Executed) : Int :=
  if recipientMissing c revm ctx item ∧ reward item ctx ≠ 0 then
    parent.balanceOf feeRecipient - item.before.balanceOf feeRecipient
  else 0

def Fits (c : Crypto) (item : Executed) : Prop :=
  (item.before.commit c item.diff).balanceOf feeRecipient < u256Max

theorem effectiveGasPrice_some {maxFee maxPriority baseFee price : Nat}
    (h : effectiveGasPrice maxFee maxPriority baseFee = some price) :
    baseFee ≤ maxFee ∧ price = min maxFee (saturatingAdd u128Max baseFee maxPriority) ∧
      price ≤ u64Max := by
  rw [effectiveGasPrice] at h
  dsimp only at h
  split_ifs at h with h₁ h₂ h₃
  obtain rfl := Option.some.inj h
  exact ⟨not_lt.mp h₂, rfl, h₃⟩

theorem paidPrice_of_some {tx : TxEnv} {baseFee price : Nat}
    (h : effectiveGasPrice tx.gasPrice (tx.gasPriorityFee.getD 0) baseFee = some price) :
    baseFee ≤ paidPrice tx baseFee ∧
      (paidPrice tx baseFee = price ∨ (tx.gasPriorityFee = none ∧ price = baseFee)) := by
  obtain ⟨hle, hprice, hmax⟩ := effectiveGasPrice_some h
  have hu : u64Max < u128Max := by decide
  rw [paidPrice]
  cases hp : tx.gasPriorityFee with
  | none =>
      refine ⟨hle, Or.inr ⟨rfl, ?_⟩⟩
      rw [hp, Option.getD_none, saturatingAdd, Nat.add_zero] at hprice
      omega
  | some priority =>
      rw [hp, Option.getD_some] at hprice
      refine ⟨?_, Or.inl hprice.symm⟩
      simp only [saturatingAdd] at hprice ⊢
      omega

structure Ran (c : Crypto) (revm : Revm) (ctx : BlockExecContext) (parent : RevmStableDb)
    (item : Executed) (index price : Nat) (result : ExecutionResult) (state : StateDiff) : Prop where
  base : item.before.db = parent
  executes : Executes c revm item.before item.tx.txId index item.tx.txEnv ctx item.outcome item.diff
    price result state

theorem toNat_effectiveGasPrice {txId : TxId} {index price : Nat} {ctx : BlockExecContext}
    {result : ExecutionResult} (h : price ≤ u64Max) :
    (receiptOf c txId index ctx price result).effectiveGasPrice.toNat = price := by
  have hlt : price < 2 ^ 64 := lt_of_le_of_lt h (by decide)
  rw [receiptOf, UInt64.toNat_ofNat_of_lt' hlt]

theorem mul_gasUsed_lt {price : Nat} (gasUsed : UInt64) (h : price ≤ u64Max) :
    gasUsed.toNat * price ≤ u128Max := by
  have hgas : gasUsed.toNat ≤ u64Max := Nat.le_pred_of_lt gasUsed.toNat_lt
  calc gasUsed.toNat * price ≤ u64Max * u64Max := Nat.mul_le_mul hgas h
    _ ≤ u128Max := by decide

theorem toNat_totalFee {txId : TxId} {index price : Nat} {ctx : BlockExecContext}
    {result : ExecutionResult} (h : price ≤ u64Max) :
    (receiptOf c txId index ctx price result).totalFee.toNat = result.gasUsed.toNat * price := by
  have hle := mul_gasUsed_lt result.gasUsed h
  have hmax : u128Max < 2 ^ 128 := by decide
  simp only [receiptOf, totalFee, l2Fee, saturatingAdd, Nat.add_zero, BitVec.toNat_ofNat]
  rw [Nat.min_eq_left hle, Nat.min_eq_left hle, Nat.mod_eq_of_lt (lt_of_le_of_lt hle hmax)]

theorem charged_iff {ctx : BlockExecContext} {parent : RevmStableDb} {item : Executed}
    {index price : Nat} {result : ExecutionResult} {state : StateDiff}
    (hr : ChargesFees revm charges) (h : Ran c revm ctx parent item index price result state) :
    Charged c charges ctx item ↔ BidsBaseFee ctx item := by
  obtain ⟨-, -, hmax⟩ := effectiveGasPrice_some h.executes.priced
  obtain ⟨-, hpaid⟩ := paidPrice_of_some h.executes.priced
  have hdebit := hr.debit _ _ _ _ _ h.executes.inspected
  rw [Charged, chargesOf, BidsBaseFee, hdebit, h.executes.reported, toNat_effectiveGasPrice hmax,
    toNat_totalFee hmax]
  change paidPrice _ _ * result.gasUsed.toNat = price * result.gasUsed.toNat ∧
    result.gasUsed.toNat * price = price * result.gasUsed.toNat ↔ (_ → _ ∨ result.gasUsed.toNat = 0)
  rw [Nat.mul_comm price, and_iff_left rfl]
  rcases hpaid with hpaid | ⟨hnone, rfl⟩
  · rw [hpaid, Nat.mul_comm]
    refine iff_of_true rfl ?_
    intro hnone
    left
    rw [paidPrice, hnone] at hpaid
    obtain ⟨hle, hprice, -⟩ := effectiveGasPrice_some h.executes.priced
    rw [hnone, Option.getD_none, saturatingAdd, Nat.add_zero, ← hpaid] at hprice
    dsimp only at hprice hpaid
    omega
  · rw [paidPrice, hnone, Nat.mul_comm]
    simpa only [true_imp_iff] using mul_eq_mul_left_iff

theorem addBaseFee_of_zero {db : RevmStableDb} {state : StateDiff} {gasUsed baseFee : Nat}
    (h : baseFeeReward gasUsed baseFee = 0) :
    addBaseFeePortionToRecipient c db state gasUsed baseFee = state := by
  rw [addBaseFeePortionToRecipient]
  split_ifs
  · rfl
  · rfl

theorem get_addBaseFee {db : RevmStableDb} {state : StateDiff} {gasUsed baseFee : Nat}
    {account : Account} (h : baseFeeReward gasUsed baseFee ≠ 0)
    (haccount : (state.get feeRecipient).getD
      (.fromInfo ((db.basic feeRecipient).getD (.default c))) = account) :
    (addBaseFeePortionToRecipient c db state gasUsed baseFee).get feeRecipient =
      some { account with
        touched := true
        info := { account.info with
          balance := saturatingAdd u256Max account.info.balance (baseFeeReward gasUsed baseFee) } } := by
  have hpos : ¬ (gasUsed = 0 ∨ baseFee = 0) := by
    rintro (rfl | rfl)
    · exact h (Nat.zero_mul _)
    · exact h (Nat.mul_zero _)
  rw [addBaseFeePortionToRecipient, if_neg hpos, if_neg h, ← haccount]
  exact (OrdMap.get_insert ..).trans (if_pos rfl)

theorem balance_fromInfo (db : RevmStableDb) :
    (Account.fromInfo ((db.basic feeRecipient).getD (.default c))).info.balance =
      db.balanceOf feeRecipient := by
  rw [RevmStableDb.basic, RevmStableDb.balanceOf]
  cases db.accounts.get feeRecipient <;> rfl

structure Settles (c : Crypto) (db : RevmStableDb) (item : Executed) (balance : Int) : Prop where
  stable : ((db.commit c item.diff).balanceOf feeRecipient : Int) = balance
  cached : ((item.before.commit c item.diff).balanceOf feeRecipient : Int) = balance

theorem settles_patched (db : RevmStableDb) {parent : RevmStableDb} {item : Executed} {state : StateDiff}
    {gasUsed baseFee : Nat} {account : Account}
    (hdiff : item.diff = addBaseFeePortionToRecipient c parent state gasUsed baseFee)
    (hreward : baseFeeReward gasUsed baseFee ≠ 0)
    (haccount : (state.get feeRecipient).getD
      (.fromInfo ((parent.basic feeRecipient).getD (.default c))) = account)
    (hkept : account.selfdestructed = false) (hfits : Fits c item) :
    Settles c db item (account.info.balance + baseFeeReward gasUsed baseFee : Nat) := by
  have hget := get_addBaseFee hreward haccount
  rw [← hdiff] at hget
  have hcached := CacheDb.balanceOf_commit_some (c := c) item.before hget rfl hkept
  have hstable := RevmStableDb.balanceOf_commit_some (c := c) db hget hkept
  have hexact : saturatingAdd u256Max account.info.balance (baseFeeReward gasUsed baseFee) =
      account.info.balance + baseFeeReward gasUsed baseFee := by
    rw [Fits, hcached] at hfits
    simp only [saturatingAdd] at hfits ⊢
    omega
  rw [hexact] at hcached hstable
  exact ⟨congrArg Nat.cast hstable, congrArg Nat.cast hcached⟩

theorem settles_unpatched (db : RevmStableDb) {item : Executed} {account : Account}
    (hget : item.diff.get feeRecipient = some account) (hkept : account.selfdestructed = false)
    (huntouched : account.touched = false →
      account.info.balance = item.before.balanceOf feeRecipient) :
    Settles c db item account.info.balance := by
  have hstable := RevmStableDb.balanceOf_commit_some (c := c) db hget hkept
  refine ⟨congrArg Nat.cast hstable, congrArg Nat.cast ?_⟩
  cases htouched : account.touched with
  | true => exact CacheDb.balanceOf_commit_some item.before hget htouched hkept
  | false =>
      rw [huntouched htouched]
      apply CacheDb.balanceOf_commit_unchanged
      intro other hother
      obtain rfl := Option.some.inj (hget.symm.trans hother)
      exact htouched

theorem settles_absent {db : RevmStableDb} {item : Executed}
    (hget : item.diff.get feeRecipient = none)
    (hsame : db.balanceOf feeRecipient = item.before.balanceOf feeRecipient) :
    Settles c db item (item.before.balanceOf feeRecipient) := by
  refine ⟨congrArg Nat.cast ?_, congrArg Nat.cast ?_⟩
  · rw [RevmStableDb.balanceOf_commit_none db hget, hsame]
  · apply CacheDb.balanceOf_commit_unchanged
    intro other hother
    exact absurd (hget.symm.trans hother) (by simp)

theorem gasDebit_eq {ctx : BlockExecContext} {parent : RevmStableDb} {item : Executed}
    {index price : Nat} {result : ExecutionResult} {state : StateDiff}
    (hr : ChargesFees revm charges) (h : Ran c revm ctx parent item index price result state) :
    (chargesOf c charges ctx item).gasDebit =
      (paidPrice item.tx.txEnv ctx.baseFee - ctx.baseFee) * result.gasUsed.toNat +
        baseFeeReward result.gasUsed.toNat ctx.baseFee := by
  obtain ⟨hbase, -⟩ := paidPrice_of_some h.executes.priced
  rw [chargesOf, hr.debit _ _ _ _ _ h.executes.inspected, baseFeeReward, l2Fee,
    Nat.mul_comm _ ctx.baseFee, ← Nat.add_mul, Nat.sub_add_cancel hbase]

theorem settles_executed {ctx : BlockExecContext} {parent db : RevmStableDb} {item : Executed}
    {index price : Nat} {result : ExecutionResult} {state : StateDiff}
    (hr : ChargesFees revm charges) (h : Ran c revm ctx parent item index price result state)
    (hsame : db.balanceOf feeRecipient = item.before.balanceOf feeRecipient) (hfits : Fits c item) :
    Settles c db item (item.before.balanceOf feeRecipient +
      ((chargesOf c charges ctx item).gasDebit + (chargesOf c charges ctx item).moved +
        staleness c revm ctx parent item)) := by
  have hinspect := h.executes.inspected
  have hdiff := h.executes.patched
  rw [h.base] at hdiff
  have hreward : reward item ctx = baseFeeReward result.gasUsed.toNat ctx.baseFee := by
    rw [reward, h.executes.reported]
    rfl
  have hdebit := gasDebit_eq hr h
  have hmissing : recipientMissing c revm ctx item = (state.get feeRecipient).isNone := by
    rw [recipientMissing, hinspect]
  rw [staleness, hmissing, hreward]
  cases hget : state.get feeRecipient with
  | some account =>
      obtain ⟨hkept, hbalance⟩ := hr.paid _ _ _ _ _ _ hinspect hget
      have huntouched := hr.untouched _ _ _ _ _ _ hinspect hget
      change (account.info.balance : Int) = item.before.balanceOf feeRecipient + _ +
        (chargesOf c charges ctx item).moved at hbalance
      rw [if_neg (by simp)]
      by_cases hzero : baseFeeReward result.gasUsed.toNat ctx.baseFee = 0
      · rw [addBaseFee_of_zero hzero] at hdiff
        have hsettles := settles_unpatched (c := c) db (by rw [hdiff]; exact hget) hkept
          huntouched
        convert hsettles using 1
        omega
      · have hsettles := settles_patched db hdiff hzero (by rw [hget]; rfl) hkept hfits
        convert hsettles using 1
        omega
  | none =>
      obtain ⟨htip, hmoved⟩ := hr.absent _ _ _ _ _ hinspect hget
      change (chargesOf c charges ctx item).moved = 0 at hmoved
      by_cases hzero : baseFeeReward result.gasUsed.toNat ctx.baseFee = 0
      · rw [addBaseFee_of_zero hzero] at hdiff
        rw [if_neg (by simp [hzero])]
        have hsettles := settles_absent (c := c) (by rw [hdiff]; exact hget) hsame
        convert hsettles using 1
        omega
      · rw [if_pos ⟨rfl, hzero⟩]
        have hsettles := settles_patched db hdiff hzero (by rw [hget, Option.getD_none]) rfl hfits
        rw [balance_fromInfo] at hsettles
        convert hsettles using 1
        omega

structure Books (c : Crypto) (revm : Revm)
    (charges : StateView → TxEnv → BlockExecContext → Charges) (ctx : BlockExecContext)
    (parent : RevmStableDb) (items : List Executed) (db : CacheDb) : Prop where
  base : db.db = parent
  ran : ∀ item ∈ items, ∃ index price result state, Ran c revm ctx parent item index price result state
  stable : ((items.map Executed.diff).foldl (RevmStableDb.commit c) parent).balanceOf feeRecipient =
    db.balanceOf feeRecipient
  balance : (db.balanceOf feeRecipient : Int) = parent.balanceOf feeRecipient +
    (items.map (fun item => ((chargesOf c charges ctx item).gasDebit : Int) +
      (chargesOf c charges ctx item).moved + staleness c revm ctx parent item)).sum

theorem books_of_replays {ctx : BlockExecContext} {parent : RevmStableDb} {items : List Executed}
    {db : CacheDb} (hr : ChargesFees revm charges) (h : Replays c revm ctx parent items db)
    (hfits : ∀ item ∈ items, Fits c item) : Books c revm charges ctx parent items db := by
  induction h with
  | start =>
      refine ⟨rfl, by simp, (CacheDb.balanceOf_new parent feeRecipient).symm, ?_⟩
      rw [CacheDb.balanceOf_new]
      simp
  | @next items db tx outcome diff prior executed ih =>
      obtain ⟨hparent, hran, hstable, hbalance⟩ := ih (fun item hitem =>
        hfits item (List.mem_append_left _ hitem))
      have hlast := hfits _ (List.mem_append_right _ (List.mem_singleton_self _))
      obtain ⟨-, price, result, state, hdone⟩ := executeTxOn_ok c (Prod.ext executed rfl)
      have hnew : Ran c revm ctx parent ⟨tx, db, outcome, diff⟩ items.length price result state :=
        ⟨hparent, hdone⟩
      obtain ⟨hs, hc⟩ := settles_executed hr hnew hstable hlast
      refine ⟨(CacheDb.db_commit db diff).trans hparent, ?_, ?_, ?_⟩
      · intro item hitem
        rcases List.mem_append.mp hitem with hitem | hitem
        · exact hran item hitem
        · obtain rfl := List.mem_singleton.mp hitem
          exact ⟨_, _, _, _, hnew⟩
      · rw [List.map_append, List.foldl_append]
        exact Int.natCast_inj.mp (hs.trans hc.symm)
      · rw [List.map_append, List.sum_append, List.map_singleton, List.sum_singleton, ← add_assoc,
          ← hbalance]
        exact hc

structure FeesConserved (c : Crypto) (charges : StateView → TxEnv → BlockExecContext → Charges)
    (ctx : BlockExecContext) (parent after : RevmStableDb) (items : List Executed) : Prop where
  charged : ∀ item ∈ items, Charged c charges ctx item
  recipient : (after.balanceOf feeRecipient : Int) = parent.balanceOf feeRecipient +
    ((items.map (fun item => (item.outcome.receipt.totalFee.toNat : Int))).sum +
      (items.map (fun item => (chargesOf c charges ctx item).moved)).sum)

theorem sum_charged {ctx : BlockExecContext} {parent : RevmStableDb} {items : List Executed}
    (h : ∀ item ∈ items, Charged c charges ctx item) :
    (items.map (fun item => ((chargesOf c charges ctx item).gasDebit : Int) +
      (chargesOf c charges ctx item).moved + staleness c revm ctx parent item)).sum =
    (items.map (fun item => (item.outcome.receipt.totalFee.toNat : Int))).sum +
      (items.map (fun item => (chargesOf c charges ctx item).moved)).sum +
        (items.map (staleness c revm ctx parent)).sum := by
  induction items with
  | nil => rfl
  | cons item items ih =>
      obtain ⟨hitem, hrest⟩ := List.forall_mem_cons.mp h
      have hfee : (chargesOf c charges ctx item).gasDebit = item.outcome.receipt.totalFee.toNat :=
        hitem.1.trans hitem.2.symm
      simp only [List.map_cons, List.sum_cons, ih hrest, hfee]
      ring

theorem fees_conserved_iff {T : Type} {trie : TrieCommit T} {world : World T}
    {s t : StableState (World T)} {env : CallEnv} {maxTxs : Nat} {outcome : ProduceBlockOutcome}
    (charging : ChargesFees revm charges)
    (run : ChainRun c (evm c revm trie) (fun _ _ => True) (.init world) s)
    (produced : produceBlock c (evm c revm trie) env maxTxs s = some (.ok outcome, t))
    (none_oversized : NoneOversized c revm trie env maxTxs s) :
    ∃ items, BlockReplays c revm env maxTxs s t outcome.block items ∧
      ((∀ item ∈ items, Fits c item) →
        (FeesConserved c charges (blockContext env s) s.world.db t.world.db items ↔
          (∀ item ∈ items, BidsBaseFee (blockContext env s) item) ∧
            (items.map (staleness c revm (blockContext env s) s.world.db)).sum = 0)) := by
  obtain ⟨items, hitems⟩ := replays_of_run run produced none_oversized
  refine ⟨items, hitems, ?_⟩
  intro hfits
  obtain ⟨db, hreplays⟩ := hitems.replays
  obtain ⟨-, hran, hstable, hbalance⟩ := books_of_replays charging hreplays hfits
  rw [← hitems.committed] at hstable
  rw [← hstable] at hbalance
  have hcharged : (∀ item ∈ items, Charged c charges (blockContext env s) item) ↔
      ∀ item ∈ items, BidsBaseFee (blockContext env s) item := by
    refine forall₂_congr ?_
    intro item hitem
    obtain ⟨index, price, result, state, h⟩ := hran item hitem
    exact charged_iff charging h
  constructor
  · rintro ⟨hall, hrecipient⟩
    refine ⟨hcharged.mp hall, ?_⟩
    rw [hrecipient, sum_charged hall] at hbalance
    omega
  · rintro ⟨hall, hstale⟩
    refine ⟨hcharged.mpr hall, ?_⟩
    rw [hbalance, sum_charged (hcharged.mpr hall), hstale, add_zero]

def payCrypto : Crypto where
  keccak256 := lastByteArr 32
  deriveEvmAddress := fun _ => none
  recoverEthTx := fun bytes => some
    { sender := lastByteArr 20 bytes
      dest := some (sampleAddress 9)
      nonce := 0
      value := 0
      input := []
      gasLimit := 21000
      gasPrice := if bytes = [1] then some (10 ^ 12) else none
      maxFeePerGas := if bytes = [1] then none else some (10 ^ 13)
      maxPriorityFeePerGas := if bytes = [1] then none else some (10 ^ 12)
      chainId := none
      accessList := []
      txType := if bytes = [1] then 0 else 2 }

def payWorld : World Unit where
  db :=
    { accounts := (OrdMap.empty.insert (sampleAddress 1) ⟨0, 10 ^ 20, lastByteArr 32 []⟩).insert
        (sampleAddress 2) ⟨0, 10 ^ 20, lastByteArr 32 []⟩
      storage := .empty
      codes := .empty }
  trie := ()

def gasCost (tx : TxEnv) (ctx : BlockExecContext) : Nat := paidPrice tx ctx.baseFee * 21000

def tip (tx : TxEnv) (ctx : BlockExecContext) : Nat :=
  (paidPrice tx ctx.baseFee - ctx.baseFee) * 21000

def touchedAccount (balance nonce : Nat) : Account :=
  ⟨⟨balance, nonce, lastByteArr 32 [], none⟩, .empty, true, false, false⟩

def payDiff (view : StateView) (tx : TxEnv) (ctx : BlockExecContext) : StateDiff :=
  if tx.caller = feeRecipient then
    OrdMap.empty.insert feeRecipient
      (touchedAccount (balanceIn view feeRecipient - gasCost tx ctx + tip tx ctx) (tx.nonce + 1))
  else
    (OrdMap.empty.insert tx.caller
      (touchedAccount (balanceIn view tx.caller - gasCost tx ctx) (tx.nonce + 1))).insert feeRecipient
        (touchedAccount (balanceIn view feeRecipient + tip tx ctx) 0)

def payRevm : Revm where
  inspectTx := fun view tx ctx =>
    if balanceIn view tx.caller < gasCost tx ctx then .error .transaction
    else .ok (.success 21000 (.call []) [], payDiff view tx ctx)
  exceeds := fun _ _ _ _ => false
  pendingQuery := fun _ _ _ => false
  traces := fun _ _ _ _ => none

def payCharges (_ : StateView) (tx : TxEnv) (ctx : BlockExecContext) : Charges where
  gasDebit := gasCost tx ctx
  moved := if tx.caller = feeRecipient then -gasCost tx ctx else 0

theorem payRevm_ok {view : StateView} {tx : TxEnv} {ctx : BlockExecContext}
    {result : ExecutionResult} {state : StateDiff}
    (h : payRevm.inspectTx view tx ctx = .ok (result, state)) :
    gasCost tx ctx ≤ balanceIn view tx.caller ∧ result = .success 21000 (.call []) [] ∧
      state = payDiff view tx ctx := by
  simp only [payRevm] at h
  split_ifs at h with hpoor
  obtain ⟨rfl, rfl⟩ := Prod.mk.inj (Except.ok.inj h)
  exact ⟨not_lt.mp hpoor, rfl, rfl⟩

theorem get_payDiff (view : StateView) (tx : TxEnv) (ctx : BlockExecContext)
    (h : gasCost tx ctx ≤ balanceIn view tx.caller) :
    ∃ balance nonce, (payDiff view tx ctx).get feeRecipient = some (touchedAccount balance nonce) ∧
      (balance : Int) = balanceIn view feeRecipient + tip tx ctx + (payCharges view tx ctx).moved := by
  rw [payDiff, payCharges]
  by_cases hself : tx.caller = feeRecipient
  · rw [if_pos hself]
    rw [hself] at h
    refine ⟨_, _, (OrdMap.get_insert ..).trans (if_pos rfl), ?_⟩
    simp only [if_pos hself]
    omega
  · rw [if_neg hself]
    refine ⟨_, _, (OrdMap.get_insert ..).trans (if_pos rfl), ?_⟩
    simp only [if_neg hself]
    omega

theorem payRevm_chargesFees : ChargesFees payRevm payCharges := by
  constructor
  · intro view tx ctx result state h
    obtain ⟨-, rfl, -⟩ := payRevm_ok h
    rfl
  · intro view tx ctx result state account h hget
    obtain ⟨hrich, rfl, rfl⟩ := payRevm_ok h
    obtain ⟨balance, nonce, hpay, hbalance⟩ := get_payDiff view tx ctx hrich
    obtain rfl := Option.some.inj (hpay.symm.trans hget)
    exact ⟨rfl, hbalance⟩
  · intro view tx ctx result state account h hget htouched
    obtain ⟨hrich, -, rfl⟩ := payRevm_ok h
    obtain ⟨balance, nonce, hpay, -⟩ := get_payDiff view tx ctx hrich
    obtain rfl := Option.some.inj (hpay.symm.trans hget)
    exact absurd htouched (by simp [touchedAccount])
  · intro view tx ctx result state h hget
    obtain ⟨hrich, -, rfl⟩ := payRevm_ok h
    obtain ⟨balance, nonce, hpay, -⟩ := get_payDiff view tx ctx hrich
    exact absurd (hpay.symm.trans hget) (by simp)

def payQueue (b : UInt8) : StableState (World Unit) :=
  (submitTx payCrypto (evm payCrypto payRevm sampleTrie) 0 .ethSigned [b] samplePrincipal
    (.init payWorld)).2

theorem run_payQueue (b : UInt8) :
    ChainRun payCrypto (evm payCrypto payRevm sampleTrie) (fun _ _ => True) (.init payWorld)
      (payQueue b) :=
  ChainRun.start.step trivial (.submitTx 0 [b] samplePrincipal _)

theorem payQueue_sole {b : UInt8} {t : StableState (World Unit)} {block : BlockData}
    {items : List Executed} (hlen : block.txIds.length = 1)
    (h : BlockReplays payCrypto payRevm sampleEnv 2 (payQueue b) t block items) :
    ∃ item price result state, items = [item] ∧
      item.tx ∈ stagedTxs payCrypto sampleEnv 2 (payQueue b) ∧
      (executeTxOn payCrypto payRevm (.new payCrypto (payQueue b).world.db) item.tx.txId 0
        item.tx.txEnv (blockContext sampleEnv (payQueue b)) none).1 = .ok (item.outcome, item.diff) ∧
      item.before = .new payCrypto (payQueue b).world.db ∧
      Executes payCrypto payRevm item.before item.tx.txId 0 item.tx.txEnv
        (blockContext sampleEnv (payQueue b)) item.outcome item.diff price result state := by
  have hone : items.length = 1 := by
    rw [← List.length_map (fun item : Executed => item.tx.txId), ← h.txIds]
    exact hlen
  obtain ⟨item, rfl⟩ := List.length_eq_one_iff.mp hone
  obtain ⟨db, hreplays⟩ := h.replays
  obtain ⟨hbefore, hexecuted⟩ := replays_singleton hreplays
  obtain ⟨-, price, result, state, hdone⟩ := executeTxOn_ok payCrypto (Prod.ext hexecuted rfl)
  refine ⟨item, price, result, state, rfl, ?_, hexecuted, hbefore, hbefore ▸ hdone⟩
  exact h.queued.subset (List.mem_map_of_mem (List.mem_singleton_self _))

def checkExec (check : ExecOutcome → StateDiff → Bool) :
    Except ExecError (ExecOutcome × StateDiff) → Bool
  | .ok (outcome, diff) => check outcome diff
  | .error _ => false

theorem payRevm_conserved :
    ∃ outcome t items,
      produceBlock payCrypto (evm payCrypto payRevm sampleTrie) sampleEnv 2 (payQueue 2) =
        some (.ok outcome, t) ∧
      outcome.block.txIds.length = 1 ∧
      BlockReplays payCrypto payRevm sampleEnv 2 (payQueue 2) t outcome.block items ∧
      FeesConserved payCrypto payCharges (blockContext sampleEnv (payQueue 2))
        (payQueue 2).world.db t.world.db items := by
  obtain ⟨outcome, t, hproduced, hcheck⟩ := produced_of_check
    (r := produceBlock payCrypto (evm payCrypto payRevm sampleTrie) sampleEnv 2 (payQueue 2))
    (fun outcome _ => decide (outcome.block.txIds.length = 1)) (by decide +kernel)
  have hclean : NoneOversized payCrypto payRevm sampleTrie sampleEnv 2 (payQueue 2) :=
    noneOversized_of_check (by decide +kernel)
  obtain ⟨items, hitems, hconserved⟩ := fees_conserved_iff payRevm_chargesFees (run_payQueue 2)
    hproduced hclean
  have hlen := of_decide_eq_true hcheck
  refine ⟨outcome, t, items, hproduced, hlen, hitems, ?_⟩
  obtain ⟨item, price, result, state, rfl, hstaged, hexecuted, hbefore, hdone⟩ :=
    payQueue_sole hlen hitems
  have hsmall : ∀ tx ∈ stagedTxs payCrypto sampleEnv 2 (payQueue 2),
      tx.txEnv.gasPriorityFee ≠ none ∧
        checkExec (fun _ diff => decide (((CacheDb.new payCrypto (payQueue 2).world.db).commit
          payCrypto diff).balanceOf feeRecipient < u256Max)) (executeTxOn payCrypto payRevm
            (.new payCrypto (payQueue 2).world.db) tx.txId 0 tx.txEnv
              (blockContext sampleEnv (payQueue 2)) none).1 = true := by decide +kernel
  obtain ⟨hsome, hfits⟩ := hsmall item.tx hstaged
  rw [hexecuted] at hfits
  apply (hconserved ?_).mpr
  · refine ⟨?_, ?_⟩
    · intro other hother hnone
      obtain rfl := List.mem_singleton.mp hother
      exact absurd hnone hsome
    · obtain ⟨hrich, -, rfl⟩ := payRevm_ok hdone.inspected
      obtain ⟨balance, nonce, hpay, -⟩ := get_payDiff _ _ _ hrich
      rw [List.map_singleton, List.sum_singleton, staleness, recipientMissing, hdone.inspected]
      simp [hpay]
  · intro other hother
    obtain rfl := List.mem_singleton.mp hother
    rw [Fits, hbefore]
    exact of_decide_eq_true hfits

theorem fees_not_conserved :
    ∃ outcome t items,
      ChainRun payCrypto (evm payCrypto payRevm sampleTrie) (fun _ _ => True) (.init payWorld)
        (payQueue 1) ∧
      produceBlock payCrypto (evm payCrypto payRevm sampleTrie) sampleEnv 2 (payQueue 1) =
        some (.ok outcome, t) ∧
      ChargesFees payRevm payCharges ∧
      BlockReplays payCrypto payRevm sampleEnv 2 (payQueue 1) t outcome.block items ∧
      ¬ FeesConserved payCrypto payCharges (blockContext sampleEnv (payQueue 1))
        (payQueue 1).world.db t.world.db items := by
  obtain ⟨outcome, t, hproduced, hcheck⟩ := produced_of_check
    (r := produceBlock payCrypto (evm payCrypto payRevm sampleTrie) sampleEnv 2 (payQueue 1))
    (fun outcome _ => decide (outcome.block.txIds.length = 1)) (by decide +kernel)
  have hclean : NoneOversized payCrypto payRevm sampleTrie sampleEnv 2 (payQueue 1) :=
    noneOversized_of_check (by decide +kernel)
  obtain ⟨items, hitems⟩ := replays_of_run (run_payQueue 1) hproduced hclean
  refine ⟨outcome, t, items, run_payQueue 1, hproduced, payRevm_chargesFees, hitems, ?_⟩
  rintro ⟨hcharged, -⟩
  obtain ⟨item, price, result, state, rfl, hstaged, -, -, hdone⟩ :=
    payQueue_sole (of_decide_eq_true hcheck) hitems
  have hran : Ran payCrypto payRevm (blockContext sampleEnv (payQueue 1)) item.before.db item 0 price
      result state := ⟨rfl, hdone⟩
  have hbids := (charged_iff payRevm_chargesFees hran).mp (hcharged item (List.mem_singleton_self _))
  have hlegacy : ∀ tx ∈ stagedTxs payCrypto sampleEnv 2 (payQueue 1),
      tx.txEnv.gasPriorityFee = none ∧
        tx.txEnv.gasPrice ≠ (blockContext sampleEnv (payQueue 1)).baseFee := by decide +kernel
  obtain ⟨hnone, hprice⟩ := hlegacy item.tx hstaged
  obtain ⟨-, rfl, -⟩ := payRevm_ok hdone.inspected
  rcases hbids hnone with hbase | hgas
  · exact hprice hbase
  · rw [hdone.reported] at hgas
    change (21000 : UInt64).toNat = 0 at hgas
    exact absurd hgas (by decide)

end Kasane.Exec
