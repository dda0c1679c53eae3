import Kasane.Chain.SubmitCases

namespace Kasane.Chain

open BigEndian Codec Word Blob

variable {W : Type} {c : Crypto} {evm : Evm W} {counting : Prop}

def StoredTxBytes.priorityFee (envelope : StoredTxBytes) : Option Nat :=
  if envelope.isDynamicFee then some envelope.maxPriorityFeePerGas else none

def StoredTxBytes.priceAt (envelope : StoredTxBytes) (baseFee : Nat) : Option Nat :=
  effectiveGasPrice envelope.maxFeePerGas
    (if envelope.isDynamicFee then envelope.maxPriorityFeePerGas else 0) baseFee

def SubmitCall.principal : SubmitCall → Principal
  | .tx _ _ who => who
  | .ic who _ _ => who

-- the checks that stand before the nonce rule
structure Reaches (s : StableState W) (envelope : StoredTxBytes) (price : Nat) : Prop where
  fresh : s.seenTx.get envelope.txId = none
  minFee : minFeeSatisfied envelope.maxFeePerGas envelope.priorityFee s.chainState.baseFee
    s.chainState.minPriorityFee s.chainState.minGasPrice = true
  priced : envelope.priceAt s.chainState.baseFee = some price

theorem priorityFee_raw (c : Crypto) (kind : TxKind) (raw : Bytes) (who : Principal) (tx : TxEnv) :
    (rawEnvelope c kind raw who tx).priorityFee = tx.gasPriorityFee := by
  cases h : tx.gasPriorityFee with
  | none => simp [StoredTxBytes.priorityFee, rawEnvelope, feeFieldsFromTxEnv, h]
  | some priority => simp [StoredTxBytes.priorityFee, rawEnvelope, feeFieldsFromTxEnv, h]

theorem run_submitted {call : SubmitCall} {envelope : StoredTxBytes} {sender : Address} {nonce : Nat}
    (h : Submitted c call envelope sender nonce) (now : Nat) (s : StableState W) :
    call.run c evm now s =
      match isPrincipalDecodeSuppressed s call.principal now with
      | (true, s) => (.error .decodeRateLimited, s)
      | (false, s) =>
          if (s.seenTx.get envelope.txId).isSome then (.error .txAlreadySeen, s)
          else if minFeeSatisfied envelope.maxFeePerGas envelope.priorityFee s.chainState.baseFee
              s.chainState.minPriorityFee s.chainState.minGasPrice = false then
            (.error .invalidFee, s)
          else
            match envelope.priceAt s.chainState.baseFee with
            | none => (.error .invalidFee, s)
            | some price =>
                admitPending c evm s sender nonce price s.chainState.baseFee envelope := by
  cases h with
  | @raw kind raw who tx size decoded =>
      rw [priorityFee_raw]
      simp only [SubmitCall.run, submitTx, if_neg (not_lt.mpr size), decoded]
      rfl
  | ic size derived =>
      simp only [SubmitCall.run, submitIcTxInput, if_neg (not_lt.mpr size), derived]
      rfl

theorem run_unsubmitted (evm : Evm W) {call : SubmitCall}
    (h : ∀ envelope sender nonce, ¬ Submitted c call envelope sender nonce) (now : Nat)
    (s : StableState W) :
    ∃ e m, call.run c evm now s = (.error e, { s with decodeSuppressUntil := m }) := by
  obtain ⟨suppressed, m, hsup⟩ := isPrincipalDecodeSuppressed_eq s call.principal now
  cases call with
  | tx kind raw who =>
      simp only [SubmitCall.principal] at hsup
      rw [SubmitCall.run, submitTx, hsup]
      cases suppressed with
      | true => exact ⟨_, m, rfl⟩
      | false =>
          dsimp only
          split_ifs with hsize hseen
          · exact ⟨_, m, rfl⟩
          · exact ⟨_, m, rfl⟩
          · split
            · exact ⟨_, m, rfl⟩
            · rename_i tx hdecode
              exact absurd (.raw (not_lt.mp hsize) hdecode) (h _ _ _)
  | ic who canisterId tx =>
      simp only [SubmitCall.principal] at hsup
      rw [SubmitCall.run, submitIcTxInput, hsup]
      cases suppressed with
      | true => exact ⟨_, m, rfl⟩
      | false =>
          dsimp only
          split
          · exact ⟨_, m, rfl⟩
          · rename_i hsize
            split
            · exact ⟨_, m, rfl⟩
            · rename_i callerEvm hderived
              exact absurd (.ic (not_lt.mp hsize) hderived) (h _ _ _)

-- the one trace that a refused submission may leave in the stored state
inductive NonceFilled (evm : Evm W) (s : StableState W) : StableState W → Prop
  | same : NonceFilled evm s s
  | filled (sender : Address) (fresh : s.senderExpectedNonce.get sender = none) :
      NonceFilled evm s
        { s with
          senderExpectedNonce :=
            s.senderExpectedNonce.insert sender (accountNonceFromState evm s sender) }

theorem nonceFilled_expected (s : StableState W) (sender : Address) :
    NonceFilled evm s (expectedNonceForSender evm s sender).2 := by
  rw [expectedNonceForSender]
  split
  · exact .same
  · rename_i hnone
    exact .filled sender hnone

-- once a sender's transaction is gone from the pool, nothing stands under its nonce
theorem pendingKey_free {s : StableState W} {p : Pool} {sender : Address}
    (h : Consistent c counting s p) (hvacant : ∀ j f, p.entry j = some f → f.key.sender ≠ sender)
    (nonce : Nat) : s.pendingBySenderNonce.get ⟨sender, nonce⟩ = none :=
  h.indexed.bySender.get_none
    (fun j f hj hkey => hvacant j f hj (congrArg SenderNonceKey.sender hkey))

-- every way an envelope that reaches the nonce rule can fare; u is s with the nonce looked up
inductive Admitted (c : Crypto) (evm : Evm W) (s u : StableState W) (sender : Address)
    (nonce price baseFee : Nat) (envelope : StoredTxBytes) :
    Except ChainError TxId × StableState W → Prop
  | misnumbered (e : ChainError) (other : (expectedNonceForSender evm s sender).1 ≠ nonce) :
      Admitted c evm s u sender nonce price baseFee envelope (.error e, u)
  | conflict {old : TxId} (current : s.pendingCurrentBySender.get sender = some old)
      (higher : ∀ q, effectiveGasPriceForTx c s old baseFee = some q → price ≤ q) :
      Admitted c evm s u sender nonce price baseFee envelope (.error .nonceConflict, u)
  | replaced {old : TxId} {q : Nat} (expected : (expectedNonceForSender evm s sender).1 = nonce)
      (current : s.pendingCurrentBySender.get sender = some old)
      (priced : effectiveGasPriceForTx c s old baseFee = some q) (lower : q < price) :
      Admitted c evm s u sender nonce price baseFee envelope
        (.ok envelope.txId, enqueuePending c (replacePendingForSender c u sender old) sender nonce
          price envelope)
  | full (e : ChainError) (vacant : s.pendingCurrentBySender.get sender = none) :
      Admitted c evm s u sender nonce price baseFee envelope (.error e, u)
  | accepted (vacant : s.pendingCurrentBySender.get sender = none)
      (uncrowded : countPendingForPrincipal s envelope.callerPrincipal < maxPendingPerPrincipal)
      (room : s.pendingBySenderNonce.len < maxPendingGlobal) :
      Admitted c evm s u sender nonce price baseFee envelope
        (.ok envelope.txId, enqueuePending c u sender nonce price envelope)
  | evicted {key : PendingFeeKey} {evicted : TxId}
      (vacant : s.pendingCurrentBySender.get sender = none)
      (uncrowded : countPendingForPrincipal s envelope.callerPrincipal < maxPendingPerPrincipal)
      (first : s.pendingFeeIndex.first = some (key, evicted))
      (lower : key.effectiveGasPrice < price) :
      Admitted c evm s u sender nonce price baseFee envelope
        (.ok envelope.txId, enqueuePending c (dropPending c evm u evicted .replaced none none) sender
          nonce price envelope)

theorem classifyNonce_self (nonce : Nat) (old : Option Nat) (price : Nat) :
    classifyNonce nonce nonce old price =
      match old with
      | some old => if price ≤ old then .conflict else .replace
      | none => .accept := by
  cases old with
  | none => simp only [classifyNonce, lt_irrefl, if_false]
  | some old => simp only [classifyNonce, lt_irrefl, if_false]

theorem enforceCaps_cases (c : Crypto) (evm : Evm W) (s : StableState W) (sender : Address)
    (principal : Principal) (price : Nat) :
    (∃ e, enforcePendingCaps c evm s sender principal price = (.error e, s)) ∨
      (countPendingForPrincipal s principal < maxPendingPerPrincipal ∧
        s.pendingBySenderNonce.len < maxPendingGlobal ∧
        enforcePendingCaps c evm s sender principal price = (.ok (), s)) ∨
      (countPendingForPrincipal s principal < maxPendingPerPrincipal ∧
        ∃ key evicted, s.pendingFeeIndex.first = some (key, evicted) ∧
          key.effectiveGasPrice < price ∧
          enforcePendingCaps c evm s sender principal price =
            (.ok (), dropPending c evm s evicted .replaced none none)) := by
  rw [enforcePendingCaps]
  unfold classifyPendingCaps
  split_ifs with hsender hprincipal hroom
  · exact .inl ⟨_, rfl⟩
  · exact .inl ⟨_, rfl⟩
  · exact .inr (.inl ⟨not_le.mp hprincipal, hroom, rfl⟩)
  · cases hfirst : s.pendingFeeIndex.first with
    | none => exact .inl ⟨_, rfl⟩
    | some entry =>
        obtain ⟨key, evicted⟩ := entry
        simp only [Option.map_some]
        split_ifs with hlower
        · refine .inr (.inr ⟨not_le.mp hprincipal, key, evicted, rfl, hlower, ?_⟩)
          simp only [evictLowestFeePending, hfirst, if_neg (not_le.mpr hlower)]
        · exact .inl ⟨_, rfl⟩

theorem admitted_admitPending {s : StableState W} {p : Pool} (h : Consistent c counting s p)
    (sender : Address) (nonce price baseFee : Nat) (envelope : StoredTxBytes) :
    Admitted c evm s (expectedNonceForSender evm s sender).2 sender nonce price baseFee envelope
      (admitPending c evm s sender nonce price baseFee envelope) := by
  have hother := @Admitted.misnumbered W c evm s (expectedNonceForSender evm s sender).2 sender nonce
    price baseFee envelope
  obtain ⟨expected, nonces, hexp⟩ := expectedNonceForSender_eq evm s sender
  have hexpected : (expectedNonceForSender evm s sender).1 = expected := congrArg Prod.fst hexp
  rw [admitPending]
  rcases happly : applyNonceAndReplacement c evm s sender nonce price baseFee with ⟨r, s₁⟩
  obtain ⟨p₁, h₁⟩ := consistent_applyNonce h happly
  rw [hexp] at hother ⊢
  simp only [applyNonceAndReplacement, hexp] at happly
  split_ifs at happly with hlow hgap
  · obtain ⟨rfl, rfl⟩ := Prod.mk.inj happly
    exact hother _ (Nat.ne_of_gt hlow)
  · obtain ⟨rfl, rfl⟩ := Prod.mk.inj happly
    exact hother _ (Nat.ne_of_lt hgap)
  · obtain rfl : expected = nonce := le_antisymm (not_lt.mp hlow) (not_lt.mp hgap)
    simp only [classifyNonce_self, pendingPriceForSender] at happly
    cases hcurrent : s.pendingCurrentBySender.get sender with
    | none =>
        simp only [hcurrent] at happly
        obtain ⟨rfl, rfl⟩ := Prod.mk.inj happly
        have hvacant := h₁.vacant none rfl
        simp only [Option.isNone_none, if_true]
        rcases enforceCaps_cases c evm { s with senderExpectedNonce := nonces } sender
          envelope.callerPrincipal price with ⟨e, he⟩ | ⟨huncrowded, hlen, heq⟩ |
            ⟨huncrowded, key, evicted, hfirst, hlower, heq⟩
        · rw [he]
          exact .full e hcurrent
        · rw [heq]
          simp only [pendingKey_free h₁.consistent hvacant expected, Option.isSome_none,
            Bool.false_eq_true, if_false]
          exact .accepted hcurrent huncrowded hlen
        · obtain ⟨p₂, h₂, -, hsub, -⟩ := consistent_enforceCaps h₁.consistent heq
          have hfree := pendingKey_free h₂ (fun j f hj => hvacant j f (hsub j f hj)) expected
          rw [heq]
          simp only [hfree, Option.isSome_none, Bool.false_eq_true, if_false]
          exact .evicted hcurrent huncrowded hfirst hlower
    | some old =>
        have hstored : effectiveGasPriceForTx c { s with senderExpectedNonce := nonces } old baseFee =
            effectiveGasPriceForTx c s old baseFee := rfl
        simp only [hcurrent, hstored] at happly
        cases hq : effectiveGasPriceForTx c s old baseFee with
        | none =>
            simp only [hq] at happly
            obtain ⟨rfl, rfl⟩ := Prod.mk.inj happly
            exact .conflict hcurrent (fun q hq' => absurd (hq.symm.trans hq') (by simp))
        | some q =>
            rcases le_or_gt price q with hle | hlower
            · simp only [hq, if_pos hle] at happly
              obtain ⟨rfl, rfl⟩ := Prod.mk.inj happly
              refine .conflict hcurrent (fun q' hq' => ?_)
              rwa [← Option.some.inj (hq.symm.trans hq')]
            · simp only [hq, if_neg (not_le.mpr hlower), replaceCurrent, hcurrent] at happly
              obtain ⟨rfl, rfl⟩ := Prod.mk.inj happly
              have hfree := pendingKey_free h₁.consistent (h₁.vacant (some old) rfl) expected
              simp only [Option.isNone_some, Bool.false_eq_true, if_false, hfree, Option.isSome_none]
              exact .replaced hexpected hcurrent hq hlower

-- a call is turned away before it touches the pool, or its envelope meets the nonce rule
inductive Ran (c : Crypto) (evm : Evm W) (call : SubmitCall) (now : Nat) (s : StableState W) :
    Except ChainError TxId × StableState W → Prop
  | barred (e : ChainError) (m : OrdMap Principal Nat) :
      Ran c evm call now s (.error e, { s with decodeSuppressUntil := m })
  | reached {envelope : StoredTxBytes} {sender : Address} {nonce price : Nat}
      {r : Except ChainError TxId × StableState W} (m : OrdMap Principal Nat)
      (submitted : Submitted c call envelope sender nonce)
      (unsuppressed : (isPrincipalDecodeSuppressed s call.principal now).1 = false)
      (reaches : Reaches s envelope price)
      (admitted : Admitted c evm { s with decodeSuppressUntil := m }
        (expectedNonceForSender evm { s with decodeSuppressUntil := m } sender).2 sender nonce price
        s.chainState.baseFee envelope r) :
      Ran c evm call now s r

theorem ran_submitted (evm : Evm W) {s : StableState W} {p : Pool} {call : SubmitCall} {envelope : StoredTxBytes}
    {sender : Address} {nonce : Nat} (h : Consistent c counting s p)
    (hsubmitted : Submitted c call envelope sender nonce) (now : Nat) :
    Ran c evm call now s (call.run c evm now s) := by
  obtain ⟨suppressed, m, hsup⟩ := isPrincipalDecodeSuppressed_eq s call.principal now
  have hs : Consistent c counting { s with decodeSuppressUntil := m } p :=
    ⟨h.indexed, h.backed, h.archived, h.bounded, h.counted⟩
  rw [run_submitted hsubmitted, hsup]
  cases suppressed with
  | true => exact .barred _ m
  | false =>
      dsimp only
      split_ifs with hseen hfee
      · exact .barred _ m
      · exact .barred _ m
      · split
        · exact .barred _ m
        · rename_i price hprice
          exact .reached m hsubmitted (congrArg Prod.fst hsup) ⟨by simpa using hseen, by simpa using hfee, hprice⟩
            (admitted_admitPending hs ..)

theorem ran_run (evm : Evm W) {s : StableState W} {p : Pool} (h : Consistent c counting s p) (call : SubmitCall)
    (now : Nat) : Ran c evm call now s (call.run c evm now s) := by
  by_cases hsub : ∃ envelope sender nonce, Submitted c call envelope sender nonce
  · obtain ⟨envelope, sender, nonce, hsubmitted⟩ := hsub
    exact ran_submitted evm h hsubmitted now
  · obtain ⟨e, m, heq⟩ := run_unsubmitted evm
      (fun envelope sender nonce hsubmitted => hsub ⟨envelope, sender, nonce, hsubmitted⟩) now s
    rw [heq]
    exact .barred e m

end Kasane.Chain
