import Kasane.Chain.Admission
import Kasane.Chain.Filed

namespace Kasane.Chain

open BigEndian Codec Word Blob

def evmPrice (maxFee : Nat) (priority : Option Nat) (baseFee : Nat) : Nat :=
  match priority with
  | none => maxFee
  | some priority => min maxFee (baseFee + priority)

def incomingPrice (envelope : StoredTxBytes) (baseFee : Nat) : Nat :=
  evmPrice envelope.maxFeePerGas envelope.priorityFee baseFee

def pendingPrice (value : StoredTxBytes) (baseFee : Nat) : Nat :=
  if baseFee ≤ value.maxFeePerGas then evmPrice value.maxFeePerGas value.priorityFee baseFee else 0

def tip (value : StoredTxBytes) : Nat :=
  if value.isDynamicFee then value.maxPriorityFeePerGas else 0

-- the amounts for which the decision by the queue's price agrees with the one by the EVM's
structure PricesAgree (envelope value : StoredTxBytes) (baseFee : Nat) : Prop where
  payable : baseFee ≤ value.maxFeePerGas
  legacy : envelope.isDynamicFee = false → envelope.maxFeePerGas ≤ pendingPrice value baseFee
  mixed : envelope.isDynamicFee = true → value.isDynamicFee = false →
    incomingPrice envelope baseFee ≤ baseFee ∨ value.maxFeePerGas < incomingPrice envelope baseFee

section Prices

variable {envelope value : StoredTxBytes} {baseFee price : Nat}

theorem priceAt_eq (value : StoredTxBytes) (baseFee : Nat) :
    value.priceAt baseFee =
      if tip value > value.maxFeePerGas then none
      else if value.maxFeePerGas < baseFee then none
      else if min value.maxFeePerGas (min (baseFee + tip value) u128Max) ≤ u64Max then
        some (min value.maxFeePerGas (min (baseFee + tip value) u128Max))
      else none := rfl

theorem payable_of_priceAt (h : envelope.priceAt baseFee = some price) :
    tip envelope ≤ envelope.maxFeePerGas ∧ baseFee ≤ envelope.maxFeePerGas ∧
      price = min envelope.maxFeePerGas (baseFee + tip envelope) ∧ price ≤ u64Max := by
  have hmax : u64Max < u128Max := by decide
  rw [priceAt_eq] at h
  split_ifs at h with htip hbase hfits
  obtain rfl := Option.some.inj h
  omega

theorem priceAt_legacy (hlegacy : value.isDynamicFee = false) (hpayable : baseFee ≤ value.maxFeePerGas)
    (hbase : baseFee ≤ u64Max) : value.priceAt baseFee = some baseFee := by
  have hmax : u64Max < u128Max := by decide
  have htip : tip value = 0 := by simp [tip, hlegacy]
  rw [priceAt_eq, htip, if_neg (by omega), if_neg (by omega), if_pos (by omega)]
  congr 1
  omega

theorem pendingPrice_dynamic (hdynamic : value.isDynamicFee = true)
    (hpayable : baseFee ≤ value.maxFeePerGas) :
    pendingPrice value baseFee = min value.maxFeePerGas (baseFee + tip value) := by
  simp only [pendingPrice, evmPrice, StoredTxBytes.priorityFee, tip, hdynamic, if_true, if_pos hpayable]

theorem pendingPrice_legacy (hlegacy : value.isDynamicFee = false)
    (hpayable : baseFee ≤ value.maxFeePerGas) : pendingPrice value baseFee = value.maxFeePerGas := by
  simp only [pendingPrice, evmPrice, StoredTxBytes.priorityFee, hlegacy, Bool.false_eq_true,
    if_false, if_pos hpayable]

theorem incomingPrice_dynamic (hdynamic : envelope.isDynamicFee = true)
    (h : envelope.priceAt baseFee = some price) : incomingPrice envelope baseFee = price := by
  obtain ⟨-, -, rfl, -⟩ := payable_of_priceAt h
  simp only [incomingPrice, evmPrice, StoredTxBytes.priorityFee, tip, hdynamic, if_true]

theorem incomingPrice_legacy (hlegacy : envelope.isDynamicFee = false) (baseFee : Nat) :
    incomingPrice envelope baseFee = envelope.maxFeePerGas := by
  simp only [incomingPrice, evmPrice, StoredTxBytes.priorityFee, hlegacy, Bool.false_eq_true, if_false]

theorem baseFee_le_incomingPrice (h : envelope.priceAt baseFee = some price) :
    baseFee ≤ incomingPrice envelope baseFee := by
  obtain ⟨-, hpayable, rfl, -⟩ := payable_of_priceAt h
  cases hdynamic : envelope.isDynamicFee with
  | true =>
      rw [incomingPrice_dynamic hdynamic h]
      omega
  | false => rwa [incomingPrice_legacy hdynamic]

def Outbids (value : StoredTxBytes) (baseFee price : Nat) : Prop :=
  ∃ q, value.priceAt baseFee = some q ∧ q < price

theorem outbids_unpayable (hunpayable : value.maxFeePerGas < baseFee) :
    ¬ Outbids value baseFee price := by
  rintro ⟨q, hq, -⟩
  obtain ⟨-, hpayable, -⟩ := payable_of_priceAt hq
  omega

theorem outbids_dynamic (hsane : tip value ≤ value.maxFeePerGas)
    (hpayable : baseFee ≤ value.maxFeePerGas) (hprice : price ≤ u64Max) :
    Outbids value baseFee price ↔ min value.maxFeePerGas (baseFee + tip value) < price := by
  have hmax : u64Max < u128Max := by decide
  constructor
  · rintro ⟨q, hq, hlower⟩
    obtain ⟨-, -, rfl, -⟩ := payable_of_priceAt hq
    exact hlower
  · intro hlower
    refine ⟨_, ?_, hlower⟩
    rw [priceAt_eq, if_neg (by omega), if_neg (by omega), if_pos (by omega)]
    congr 1
    omega

theorem legacy_never_outbids (hlegacy : envelope.isDynamicFee = false)
    (hprice : envelope.priceAt baseFee = some price) : ¬ Outbids value baseFee price := by
  rintro ⟨q, hq, hlower⟩
  obtain ⟨-, -, rfl, -⟩ := payable_of_priceAt hprice
  obtain ⟨-, hpayable, rfl, -⟩ := payable_of_priceAt hq
  have htip : tip envelope = 0 := by simp [tip, hlegacy]
  omega

theorem decisions_agree_iff (hbase : baseFee ≤ u64Max) (hsane : tip value ≤ value.maxFeePerGas)
    (hprice : envelope.priceAt baseFee = some price) :
    (Outbids value baseFee price ↔ pendingPrice value baseFee < incomingPrice envelope baseFee) ↔
      PricesAgree envelope value baseFee := by
  have hpays := baseFee_le_incomingPrice hprice
  rcases lt_or_ge value.maxFeePerGas baseFee with hunpayable | hpayable
  · have hzero : pendingPrice value baseFee = 0 := if_neg (not_le.mpr hunpayable)
    refine ⟨fun h => absurd (h.mpr (by omega)) (outbids_unpayable hunpayable), fun h => ?_⟩
    exact absurd h.payable (not_le.mpr hunpayable)
  · cases hdynamic : envelope.isDynamicFee with
    | false =>
        have hnever := @legacy_never_outbids envelope value baseFee price hdynamic hprice
        rw [incomingPrice_legacy hdynamic]
        constructor
        · intro h
          exact ⟨hpayable, fun _ => not_lt.mp (fun hlt => hnever (h.mpr hlt)),
            fun htrue => absurd (hdynamic.symm.trans htrue) (by simp)⟩
        · intro h
          exact ⟨fun hout => absurd hout hnever, fun hlt => absurd (h.legacy hdynamic) (not_le.mpr hlt)⟩
    | true =>
        rw [incomingPrice_dynamic hdynamic hprice] at hpays ⊢
        have hfits := (payable_of_priceAt hprice).2.2.2
        have hlegacy : envelope.isDynamicFee = false → envelope.maxFeePerGas ≤
            pendingPrice value baseFee := fun hfalse => absurd (hdynamic.symm.trans hfalse) (by simp)
        cases hold : value.isDynamicFee with
        | true =>
            rw [pendingPrice_dynamic hold hpayable, outbids_dynamic hsane hpayable hfits]
            exact ⟨fun _ => ⟨hpayable, hlegacy, fun _ hfalse => absurd (hold.symm.trans hfalse) (by simp)⟩,
              fun _ => Iff.rfl⟩
        | false =>
            have hout : Outbids value baseFee price ↔ baseFee < price := by
              rw [Outbids, priceAt_legacy hold hpayable hbase]
              simp
            rw [pendingPrice_legacy hold hpayable, hout]
            constructor
            · intro h
              refine ⟨hpayable, hlegacy, fun _ _ => ?_⟩
              rw [incomingPrice_dynamic hdynamic hprice]
              rcases le_or_gt price baseFee with hle | hlt
              · exact .inl hle
              · exact .inr (h.mp hlt)
            · intro h
              have hmixed := h.mixed hdynamic hold
              rw [incomingPrice_dynamic hdynamic hprice] at hmixed
              omega

end Prices

section Store

variable {W : Type} {c : Crypto} {evm : Evm W} {counting : Prop}

def Sane (s : StableState W) : Prop :=
  ∀ id value, s.txStore.get id = some value → tip value ≤ value.maxFeePerGas

theorem sane_init (world : W) : Sane (StableState.init world) :=
  fun _ _ h => absurd h (by simp [StableState.init])

theorem Sane.forgets {s t : StableState W} (h : Sane s) (hforgets : Forgets s t) : Sane t :=
  fun id value hget => h id value (hforgets id value hget)

theorem forgets_filled {s t : StableState W} (h : NonceFilled evm s t) : Forgets s t := by
  cases h with
  | same => exact .of_eq rfl
  | filled sender fresh => exact .of_eq rfl

theorem forgets_replaced (evm : Evm W) (s : StableState W) (sender : Address) (old : TxId) :
    Forgets s (replacePendingForSender c s sender old) :=
  forgets_tidied (tidied_replacePending s sender old : Tidied c evm ∅ _ _)

theorem forgets_dropped (s : StableState W) (id : TxId) (code : DropCode) (sender : Option Address)
    (nonce : Option Nat) : Forgets s (dropPending c evm s id code sender nonce) :=
  forgets_tidied (tidied_dropPending s id code sender nonce : Tidied c evm ∅ _ _)

theorem sane_enqueued {s : StableState W} {sender : Address} {nonce price baseFee : Nat}
    {envelope : StoredTxBytes} (h : Sane s) (hprice : envelope.priceAt baseFee = some price) :
    Sane (enqueuePending c s sender nonce price envelope) := by
  intro id value hget
  rw [txStore_enqueuePending, OrdMap.get_insert] at hget
  split_ifs at hget
  · obtain rfl := Option.some.inj hget
    exact (payable_of_priceAt hprice).1
  · exact h id value hget

theorem sane_admitted {s u : StableState W} {sender : Address} {nonce price baseFee : Nat}
    {envelope : StoredTxBytes} {r : Except ChainError TxId × StableState W} (h : Sane u)
    (hprice : envelope.priceAt baseFee = some price)
    (hadmitted : Admitted c evm s u sender nonce price baseFee envelope r) : Sane r.2 := by
  cases hadmitted with
  | misnumbered e other => exact h
  | conflict current higher => exact h
  | full e vacant => exact h
  | @replaced old q expected current priced lower =>
      exact sane_enqueued (h.forgets (forgets_replaced evm u sender old)) hprice
  | accepted vacant uncrowded room => exact sane_enqueued h hprice
  | evicted vacant uncrowded first lower =>
      exact sane_enqueued (h.forgets (forgets_dropped u _ .replaced none none)) hprice

theorem sane_ran {call : SubmitCall} {now : Nat} {s : StableState W}
    {r : Except ChainError TxId × StableState W} (h : Sane s) (hran : Ran c evm call now s r) :
    Sane r.2 := by
  cases hran with
  | barred e m => exact h.forgets (.of_eq rfl)
  | @reached envelope sender nonce price r m submitted _ reaches admitted =>
      have hsuppressed : Sane { s with decodeSuppressUntil := m } := h
      have hlooked : Sane (expectedNonceForSender evm { s with decodeSuppressUntil := m } sender).2 :=
        hsuppressed.forgets (forgets_filled (nonceFilled_expected _ sender))
      exact sane_admitted hlooked reaches.priced admitted

theorem pruneClosed_sane : PruneClosed c (Sane (W := W)) where
  step := fun _ _ _ h hrun => h.forgets (forgets_pruneStep hrun)
  bookkeeping := fun _ _ _ _ h => h.forgets (.of_eq rfl)

theorem sane_op {op : ChainOp} {s t : StableState W} {p : Pool} (h : Sane s)
    (hcons : Consistent c counting s p) (hrun : op.Runs c evm s t) : Sane t := by
  cases hrun with
  | submitTx now txBytes who s => exact sane_ran h (ran_run evm hcons (.tx .ethSigned txBytes who) now)
  | submitIcTxInput now who canisterId tx s =>
      exact sane_ran h (ran_run evm hcons (.ic who canisterId tx) now)
  | produceBlock returns => exact h.forgets (forgets_produceBlock returns)
  | pruneBlocks retain maxOps s => exact pruneClosed_sane.pruneBlocks retain maxOps h
  | interruptedPrune pruning k =>
      exact pruneClosed_sane.crashed _ _ k (pruneClosed_sane.pruning h pruning)
  | recoverPruneJournal s => exact pruneClosed_sane.recover h
  | rebuildPendingRuntimeIndexes s =>
      exact h.forgets (forgets_tidied (@tidied_rebuildRuntime W c evm ∅ s))

end Store

section Rule

variable {W : Type} {c : Crypto} {evm : Evm W} {counting : Prop}

structure TakesOver (old id : TxId) (sender : Address) (r : Except ChainError TxId × StableState W) :
    Prop where
  accepted : r.1 = .ok id
  current : r.2.pendingCurrentBySender.get sender = some id
  gone : r.2.pendingMetaByTxId.get old = none

structure Stays (old : TxId) (sender : Address) (r : Except ChainError TxId × StableState W) :
    Prop where
  conflict : r.1 = .error .nonceConflict
  current : r.2.pendingCurrentBySender.get sender = some old
  pending : (r.2.pendingMetaByTxId.get old).isSome

theorem not_stays_of_takesOver {old id : TxId} {sender : Address}
    {r : Except ChainError TxId × StableState W} (h : TakesOver old id sender r) :
    ¬ Stays old sender r :=
  fun hstays => absurd (h.accepted.symm.trans hstays.conflict) (by simp)

-- what a submission under the expected nonce of a sender with a pending transaction has to do
def ReplacementRule (envelope value : StoredTxBytes) (baseFee : Nat) (old : TxId) (sender : Address)
    (r : Except ChainError TxId × StableState W) : Prop :=
  if pendingPrice value baseFee < incomingPrice envelope baseFee then
    TakesOver old envelope.txId sender r
  else Stays old sender r

structure MeetsRule (s : StableState W) (call : SubmitCall) (envelope value : StoredTxBytes)
    (now : Nat) : Prop where
  unsuppressed : (isPrincipalDecodeSuppressed s call.principal now).1 = false
  fresh : s.seenTx.get envelope.txId = none
  payable : (envelope.priceAt s.chainState.baseFee).isSome
  prices : PricesAgree envelope value s.chainState.baseFee

theorem effectivePrice_stored {s : StableState W} {id : TxId} {value : StoredTxBytes}
    {tx : StoredTx} (hget : s.txStore.get id = some value) (htx : StoredTx.tryFrom c value = .ok tx)
    (baseFee : Nat) : effectiveGasPriceForTx c s id baseFee = value.priceAt baseFee := by
  rw [effectiveGasPriceForTx, storedTx, hget, Option.map_some, htx, tryFrom_stored htx]
  rfl

theorem stays_looked {s : StableState W} {p : Pool} {sender : Address} {old : TxId}
    (h : Consistent c counting s p) (hcurrent : s.pendingCurrentBySender.get sender = some old) :
    Stays old sender (.error .nonceConflict, (expectedNonceForSender evm s sender).2) := by
  obtain ⟨expected, nonces, heq⟩ := expectedNonceForSender_eq evm s sender
  obtain ⟨id, e, hid, -, rfl⟩ := (h.indexed.current sender old).mp hcurrent
  rw [heq]
  refine ⟨rfl, hcurrent, ?_⟩
  have hmeta : s.pendingMetaByTxId.get id = some e.key := h.indexed.byTxId.get_some hid
  exact Option.isSome_iff_exists.mpr ⟨_, hmeta⟩

theorem takesOver_enqueued {s : StableState W} {p : Pool} {sender : Address} {old : TxId}
    {envelope : StoredTxBytes} (h : Consistent c counting s p)
    (hcurrent : s.pendingCurrentBySender.get sender = some old)
    (hfresh : s.seenTx.get envelope.txId = none) (nonce price : Nat) :
    TakesOver old envelope.txId sender (.ok envelope.txId,
      enqueuePending c (replacePendingForSender c (expectedNonceForSender evm s sender).2 sender old)
        sender nonce price envelope) := by
  obtain ⟨expected, nonces, heq⟩ := expectedNonceForSender_eq evm s sender
  have hs : Consistent c counting { s with senderExpectedNonce := nonces } p :=
    ⟨h.indexed, h.backed, h.archived, h.bounded, h.counted⟩
  obtain ⟨id, e, hid, rfl, rfl⟩ := (h.indexed.current sender old).mp hcurrent
  obtain ⟨⟨hashes, locs, ring, ringState, hreplaced⟩, -⟩ :=
    replacePending_effect (c := c) hs.indexed hid
  have hgone := consistent_replacePending hs hid
  have hvacant (j : TxId) (f : PoolEntry) (hj : (p.erase id).entry j = some f) :
      f.key.sender ≠ e.key.sender := by
    intro hsame
    obtain rfl := p.one_per_sender (Pool.entry_erase hj) hid hsame
    exact absurd ((p.erase_self j).symm.trans hj) (by simp)
  have hne : id ≠ envelope.txId := by
    rintro rfl
    obtain ⟨mark, hmark⟩ := h.backed.marked hid
    exact absurd (hfresh.symm.trans hmark) (by simp)
  obtain ⟨hashes', queueMeta, chainState, hqueued⟩ :=
    enqueuePending_eq (c := c) hgone.indexed hvacant nonce price envelope
  rw [heq, hqueued]
  refine ⟨rfl, (OrdMap.get_insert ..).trans (if_pos rfl), ?_⟩
  rw [OrdMap.get_insert, if_neg hne, hreplaced]
  exact (OrdMap.get_remove ..).trans (if_pos rfl)

theorem admitted_pending {s : StableState W} {p : Pool} {sender : Address} {old : TxId}
    {nonce price baseFee : Nat} {envelope value : StoredTxBytes}
    {r : Except ChainError TxId × StableState W} (h : Consistent c counting s p)
    (hadmitted : Admitted c evm s (expectedNonceForSender evm s sender).2 sender nonce price baseFee
      envelope r)
    (hfresh : s.seenTx.get envelope.txId = none)
    (hexpected : (expectedNonceForSender evm s sender).1 = nonce)
    (hcurrent : s.pendingCurrentBySender.get sender = some old)
    (hold : ∀ baseFee, effectiveGasPriceForTx c s old baseFee = value.priceAt baseFee) :
    (Outbids value baseFee price ∧ TakesOver old envelope.txId sender r) ∨
      (¬ Outbids value baseFee price ∧ Stays old sender r) := by
  cases hadmitted with
  | misnumbered e other => exact absurd hexpected other
  | @conflict old' current higher =>
      obtain rfl := Option.some.inj (current.symm.trans hcurrent)
      refine .inr ⟨?_, stays_looked h hcurrent⟩
      rintro ⟨q, hq, hlower⟩
      exact absurd (higher q ((hold baseFee).trans hq)) (not_le.mpr hlower)
  | @replaced old' q expected current priced lower =>
      obtain rfl := Option.some.inj (current.symm.trans hcurrent)
      exact .inl ⟨⟨q, (hold baseFee).symm.trans priced, lower⟩,
        takesOver_enqueued h hcurrent hfresh nonce price⟩
  | full e vacant => exact absurd (vacant.symm.trans hcurrent) (by simp)
  | accepted vacant uncrowded room => exact absurd (vacant.symm.trans hcurrent) (by simp)
  | evicted vacant uncrowded first lower => exact absurd (vacant.symm.trans hcurrent) (by simp)

theorem expectedNonce_suppressed (s : StableState W) (m : OrdMap Principal Nat) (sender : Address) :
    (expectedNonceForSender evm { s with decodeSuppressUntil := m } sender).1 =
      (expectedNonceForSender evm s sender).1 := by
  simp only [expectedNonceForSender]
  cases s.senderExpectedNonce.get sender with
  | none => rfl
  | some value => rfl

theorem not_rule_of_error {envelope value : StoredTxBytes} {baseFee : Nat} {old : TxId}
    {sender : Address} {e : ChainError} {t : StableState W} (he : e ≠ .nonceConflict) :
    ¬ ReplacementRule envelope value baseFee old sender (.error e, t) := by
  rw [ReplacementRule]
  split_ifs
  · exact fun h => absurd h.accepted (by simp)
  · exact fun h => he (Except.error.inj h.conflict)

theorem rule_iff_agree {envelope value : StoredTxBytes} {baseFee price : Nat} {old : TxId}
    {sender : Address} {r : Except ChainError TxId × StableState W}
    (h : (Outbids value baseFee price ∧ TakesOver old envelope.txId sender r) ∨
      (¬ Outbids value baseFee price ∧ Stays old sender r)) :
    ReplacementRule envelope value baseFee old sender r ↔
      (Outbids value baseFee price ↔ pendingPrice value baseFee < incomingPrice envelope baseFee) := by
  rw [ReplacementRule]
  rcases h with ⟨hout, htakes⟩ | ⟨hout, hstays⟩
  · split_ifs with hlt
    · exact ⟨fun _ => iff_of_true hout hlt, fun _ => htakes⟩
    · exact ⟨fun hstays => absurd hstays (not_stays_of_takesOver htakes), fun h => absurd (h.mp hout) hlt⟩
  · split_ifs with hlt
    · exact ⟨fun htakes => absurd hstays (not_stays_of_takesOver htakes), fun h => absurd (h.mpr hlt) hout⟩
    · exact ⟨fun _ => iff_of_false hout hlt, fun _ => hstays⟩

theorem rule_iff {s : StableState W} {p : Pool} (h : Consistent c counting s p) (hsane : Sane s)
    (hbase : s.chainState.baseFee ≤ u64Max) {call : SubmitCall} {envelope value : StoredTxBytes}
    {sender : Address} {nonce : Nat} {old : TxId} (now : Nat)
    (hsubmitted : Submitted c call envelope sender nonce)
    (hfee : minFeeSatisfied envelope.maxFeePerGas envelope.priorityFee s.chainState.baseFee
      s.chainState.minPriorityFee s.chainState.minGasPrice = true)
    (hexpected : (expectedNonceForSender evm s sender).1 = nonce)
    (hcurrent : s.pendingCurrentBySender.get sender = some old)
    (hget : s.txStore.get old = some value) :
    ReplacementRule envelope value s.chainState.baseFee old sender (call.run c evm now s) ↔
      MeetsRule s call envelope value now := by
  obtain ⟨suppressed, m, hsup⟩ := isPrincipalDecodeSuppressed_eq s call.principal now
  have hs : Consistent c counting { s with decodeSuppressUntil := m } p :=
    ⟨h.indexed, h.backed, h.archived, h.bounded, h.counted⟩
  obtain ⟨id, e, hid, -, rfl⟩ := (h.indexed.current sender old).mp hcurrent
  obtain ⟨bytes, tx, hbytes, htx⟩ := h.backed.stored hid
  obtain rfl := Option.some.inj (hbytes.symm.trans hget)
  have hbarred {e : ChainError} {t : StableState W} (he : e ≠ .nonceConflict)
      (hnot : ¬ MeetsRule s call envelope bytes now) :
      ReplacementRule envelope bytes s.chainState.baseFee id sender (.error e, t) ↔
        MeetsRule s call envelope bytes now :=
    iff_of_false (not_rule_of_error he) hnot
  rw [run_submitted hsubmitted, hsup]
  cases suppressed with
  | true =>
      refine hbarred (by simp) (fun hmeets => ?_)
      exact absurd (hmeets.unsuppressed.symm.trans (congrArg Prod.fst hsup)) (by simp)
  | false =>
      dsimp only
      split_ifs with hseen hlow
      · exact hbarred (by simp) (fun hmeets => absurd hseen (by simp [hmeets.fresh]))
      · exact absurd (hfee.symm.trans hlow) (by simp)
      · have hfresh : s.seenTx.get envelope.txId = none := by simpa using hseen
        cases hprice : envelope.priceAt s.chainState.baseFee with
        | none =>
            exact hbarred (by simp) (fun hmeets => absurd hmeets.payable (by simp [hprice]))
        | some price =>
            have hpending := admitted_pending hs
              (admitted_admitPending hs sender nonce price s.chainState.baseFee envelope) hfresh
              ((expectedNonce_suppressed s m sender).trans hexpected) hcurrent
              (fun baseFee => effectivePrice_stored hbytes htx baseFee)
            refine (rule_iff_agree hpending).trans ?_
            refine (decisions_agree_iff hbase (hsane _ _ hbytes) hprice).trans ?_
            exact ⟨fun hprices => ⟨congrArg Prod.fst hsup, hfresh, by simp [hprice], hprices⟩,
              fun hmeets => hmeets.prices⟩

end Rule

def bidTx (sender dynamic price : UInt8) : RecoveredTx where
  sender := lastByteArr 20 [sender]
  dest := none
  nonce := 0
  value := 0
  input := []
  gasLimit := 21000
  gasPrice := if dynamic = 0 then some (price.toNat * 10 ^ 11) else none
  maxFeePerGas := if dynamic = 0 then none else some (price.toNat * 10 ^ 11)
  maxPriorityFeePerGas := if dynamic = 0 then none else some (price.toNat * 10 ^ 11)
  chainId := none
  accessList := []
  txType := dynamic.toNat

def bidCrypto : Crypto where
  keccak256 := fun bytes => ⟨(bytes.reverse ++ List.replicate 32 0).take 32, by simp⟩
  deriveEvmAddress := fun _ => none
  recoverEthTx := fun bytes =>
    match bytes with
    | [_, sender, dynamic, price] => some (bidTx sender dynamic price)
    | _ => none

def bidRaw (sender dynamic price : UInt8) : Bytes := [2, sender, dynamic, price]

def bidEnvelope (who : Principal) (sender dynamic price : UInt8) : StoredTxBytes :=
  rawEnvelope bidCrypto .ethSigned (bidRaw sender dynamic price) who
    (decodedToTxEnv (bidTx sender dynamic price))

theorem submitted_bid (who : Principal) (sender dynamic price : UInt8) :
    Submitted bidCrypto (.tx .ethSigned (bidRaw sender dynamic price) who)
      (bidEnvelope who sender dynamic price) (lastByteArr 20 [sender]) 0 :=
  .raw (show 4 ≤ maxTxSize by decide) rfl

end Kasane.Chain
