import Kasane.Chain.PendingIndexes
import Kasane.Chain.Commit

namespace Kasane.Chain

open BigEndian Codec Word Blob

variable {W : Type} {c : Crypto} {evm : Evm W}

-- the pending transaction id leaves the queue for good
def dropped (c : Crypto) (s : StableState W) (id : TxId) (e : PoolEntry)
    (nonces : OrdMap Address Nat) (code : DropCode) : StableState W :=
  markDroppedAndPurgePayload c { unlinked c s id e with senderExpectedNonce := nonces } id code

-- what upkeep of a consistent queue consists of
inductive PoolStep (c : Crypto) : StableState W → StableState W → Prop
  | touched (s : StableState W) (nonces : OrdMap Address Nat) (m : OrdMap Principal Nat) :
      PoolStep c s { s with senderExpectedNonce := nonces, decodeSuppressUntil := m }
  | dropped {s : StableState W} {p : Pool} {id : TxId} {e : PoolEntry}
      (consistent : Consistent c False s p) (pending : p.entry id = some e)
      (nonces : OrdMap Address Nat) (code : DropCode) :
      PoolStep c s (Chain.dropped c s id e nonces code)
  | queued {s : StableState W} {p : Pool} {sender : Address} {nonce price : Nat}
      {envelope : StoredTxBytes} {stored : StoredTx} {call : SubmitCall}
      (consistent : Consistent c False s p) (fresh : s.seenTx.get envelope.txId = none)
      (vacant : ∀ j f, p.entry j = some f → f.key.sender ≠ sender)
      (checked : StoredTx.tryFrom c envelope = .ok stored)
      (submitted : Submitted c call envelope sender nonce) :
      PoolStep c s (enqueuePending c s sender nonce price envelope)

abbrev PoolSteps (c : Crypto) : StableState W → StableState W → Prop :=
  Relation.ReflTransGen (PoolStep c)

theorem dropPending_eq (evm : Evm W) {s : StableState W} {p : Pool} {id : TxId} {e : PoolEntry}
    (h : Indexed s.pendingMaps p) (hid : p.entry id = some e) (code : DropCode)
    (sender : Option Address) (nonce : Option Nat) :
    ∃ nonces, dropPending c evm s id code sender nonce = dropped c s id e nonces code := by
  obtain ⟨nonces, heq⟩ := advanceSender_eq (c := c) evm h hid sender nonce false
  exact ⟨nonces, by rw [dropPending, heq, dropped]⟩

theorem replacePending_eq {s : StableState W} {p : Pool} {id : TxId} {e : PoolEntry}
    (h : Indexed s.pendingMaps p) (hid : p.entry id = some e) :
    replacePendingForSender c s e.key.sender id =
      dropped c s id e s.senderExpectedNonce .replaced := by
  have hready : s.readyKeyByTxId.get id = some e.ready := h.readyKey.get_some hid
  have hmeta : s.pendingMetaByTxId.get id = some e.key := h.byTxId.get_some hid
  have hfee : s.pendingFeeKeyByTxId.get id = some e.fee := h.feeKey.get_some hid
  rw [replacePendingForSender]
  simp only [removeReadyByTxId, hready, removePendingFeeIndexByTxId, hfee,
    decrementPrincipal_counts, hmeta, unlinked, dropped]

theorem steps_replaceCurrent {s t : StableState W} {p : Pool} {sender : Address}
    {r : Except ChainError (Option TxId)} (h : Consistent c False s p)
    (hrun : replaceCurrent c s sender = (r, t)) : PoolSteps c s t := by
  rw [replaceCurrent] at hrun
  split at hrun
  · obtain ⟨-, rfl⟩ := Prod.mk.inj hrun
    exact .refl
  · rename_i old hcurrent
    obtain ⟨-, rfl⟩ := Prod.mk.inj hrun
    obtain ⟨id, e, hid, rfl, rfl⟩ := (h.indexed.current sender old).mp hcurrent
    rw [replacePending_eq h.indexed hid]
    exact .single (.dropped h hid _ _)

theorem steps_applyNonce {s t : StableState W} {p : Pool} {sender : Address}
    {nonce price baseFee : Nat} {r : Except ChainError (Option TxId)} (h : Consistent c False s p)
    (hrun : applyNonceAndReplacement c evm s sender nonce price baseFee = (r, t)) :
    PoolSteps c s t := by
  obtain ⟨expected, nonces, hexp⟩ := expectedNonceForSender_eq evm s sender
  have hs : Consistent c False { s with senderExpectedNonce := nonces } p :=
    ⟨h.indexed, h.backed, h.archived, h.bounded, h.counted⟩
  have htouched : PoolSteps c s { s with senderExpectedNonce := nonces } :=
    .single (.touched s nonces s.decodeSuppressUntil)
  have hsame {r' : Except ChainError (Option TxId)}
      (he : (r', { s with senderExpectedNonce := nonces }) = (r, t)) : PoolSteps c s t := by
    obtain ⟨-, rfl⟩ := Prod.mk.inj he
    exact htouched
  simp only [applyNonceAndReplacement, hexp] at hrun
  split_ifs at hrun
  · exact hsame hrun
  · exact hsame hrun
  · split at hrun
    · exact hsame hrun
    · split at hrun
      · exact hsame hrun
      · exact hsame hrun
      · exact hsame hrun
      · exact hsame hrun
      · exact htouched.trans (steps_replaceCurrent hs hrun)

theorem steps_evictLowest {s t : StableState W} {p : Pool} {price : Nat}
    {r : Except ChainError Unit} (h : Consistent c False s p)
    (hrun : evictLowestFeePending c evm s price = (r, t)) : PoolSteps c s t := by
  rw [evictLowestFeePending] at hrun
  split at hrun
  · obtain ⟨-, rfl⟩ := Prod.mk.inj hrun
    exact .refl
  · rename_i key evicted hfirst
    split_ifs at hrun
    · obtain ⟨-, rfl⟩ := Prod.mk.inj hrun
      exact .refl
    · obtain ⟨-, rfl⟩ := Prod.mk.inj hrun
      obtain ⟨id, e, hid, -, rfl⟩ := (h.indexed.feeIndex key evicted).mp (OrdMap.first_get hfirst)
      obtain ⟨nonces, heq⟩ := dropPending_eq (c := c) evm h.indexed hid .replaced none none
      rw [heq]
      exact .single (.dropped h hid _ _)

theorem steps_enforceCaps {s t : StableState W} {p : Pool} {sender : Address}
    {principal : Principal} {price : Nat} {r : Except ChainError Unit}
    (h : Consistent c False s p)
    (hrun : enforcePendingCaps c evm s sender principal price = (r, t)) : PoolSteps c s t := by
  have hsame {r' : Except ChainError Unit} (he : (r', s) = (r, t)) : PoolSteps c s t := by
    obtain ⟨-, rfl⟩ := Prod.mk.inj he
    exact .refl
  rw [enforcePendingCaps] at hrun
  split at hrun
  · exact hsame hrun
  · exact hsame hrun
  · exact hsame hrun
  · exact hsame hrun
  · exact steps_evictLowest h hrun

theorem steps_admitPending {s : StableState W} {p : Pool} {sender : Address}
    {nonce price baseFee : Nat} {envelope : StoredTxBytes} {tx : StoredTx} {call : SubmitCall}
    (h : Consistent c False s p) (hfresh : s.seenTx.get envelope.txId = none)
    (hok : StoredTx.tryFrom c envelope = .ok tx)
    (hsubmitted : Submitted c call envelope sender nonce) :
    PoolSteps c s (admitPending c evm s sender nonce price baseFee envelope).2 := by
  rw [admitPending]
  rcases happly : applyNonceAndReplacement c evm s sender nonce price baseFee with ⟨r, s₁⟩
  obtain ⟨p₁, h₁⟩ := consistent_applyNonce h happly
  have hsteps := steps_applyNonce h happly
  cases r with
  | error e => exact hsteps
  | ok replaced =>
      dsimp only
      rcases hcaps : (if replaced.isNone = true then
        enforcePendingCaps c evm s₁ sender envelope.callerPrincipal price else (.ok (), s₁))
        with ⟨r, s₂⟩
      have h₂ : PoolSteps c s₁ s₂ ∧ ∃ p₂, Consistent c False s₂ p₂ ∧ s₂.seenTx = s₁.seenTx ∧
          ∀ j f, p₂.entry j = some f → p₁.entry j = some f := by
        cases replaced with
        | none =>
            obtain ⟨p₂, hcons, hseen, hsub, -⟩ := consistent_enforceCaps h₁.consistent hcaps
            exact ⟨steps_enforceCaps h₁.consistent hcaps, p₂, hcons, hseen, hsub⟩
        | some old =>
            obtain ⟨-, rfl⟩ := Prod.mk.inj hcaps
            exact ⟨.refl, p₁, h₁.consistent, rfl, fun _ _ hj => hj⟩
      obtain ⟨hsteps₂, p₂, hcons, hseen, hsub⟩ := h₂
      have hboth := hsteps.trans hsteps₂
      cases r with
      | error e => exact hboth
      | ok a =>
          dsimp only
          split_ifs
          · exact hboth
          · refine hboth.tail (.queued hcons ?_ ?_ hok hsubmitted)
            · rw [hseen, h₁.seenTx]
              exact hfresh
            · intro j f hj
              exact h₁.vacant replaced rfl j f (hsub j f hj)

theorem steps_submitTx {s : StableState W} {p : Pool} (now : Nat) (raw : Bytes) (who : Principal)
    (h : Consistent c False s p) :
    PoolSteps c s (submitTx c evm now .ethSigned raw who s).2 := by
  obtain ⟨suppressed, m, hsup⟩ := isPrincipalDecodeSuppressed_eq s who now
  have hs : Consistent c False { s with decodeSuppressUntil := m } p :=
    ⟨h.indexed, h.backed, h.archived, h.bounded, h.counted⟩
  have htouched : PoolSteps c s { s with decodeSuppressUntil := m } :=
    .single (.touched s s.senderExpectedNonce m)
  rw [submitTx, hsup]
  cases suppressed with
  | true => exact htouched
  | false =>
      dsimp only
      split_ifs with hsize hseen
      · exact htouched
      · exact htouched
      · split
        · exact htouched
        · rename_i tx hdecode
          split
          · exact htouched
          · split
            · exact htouched
            · obtain ⟨stored, hok⟩ := tryFrom_ethSigned (c := c) (raw_ne_nil_of_decode hdecode) who
                (feeFieldsFromTxEnv tx).1 (feeFieldsFromTxEnv tx).2.1 (feeFieldsFromTxEnv tx).2.2
              have hsubmitted : Submitted c (.tx .ethSigned raw who)
                  (rawEnvelope c .ethSigned raw who tx) tx.caller tx.nonce :=
                .raw (not_lt.mp hsize) hdecode
              exact htouched.trans
                (steps_admitPending hs (by simpa using hseen) hok hsubmitted)

theorem steps_submitIcTxInput {s : StableState W} {p : Pool} (now : Nat) {who canisterId : Principal}
    (hwho : who.bytes ≠ []) (hcanister : canisterId.bytes ≠ []) (tx : IcSyntheticTxInput)
    (h : Consistent c False s p) :
    PoolSteps c s (submitIcTxInput c evm now who canisterId tx s).2 := by
  obtain ⟨suppressed, m, hsup⟩ := isPrincipalDecodeSuppressed_eq s who now
  have hs : Consistent c False { s with decodeSuppressUntil := m } p :=
    ⟨h.indexed, h.backed, h.archived, h.bounded, h.counted⟩
  have htouched : PoolSteps c s { s with decodeSuppressUntil := m } :=
    .single (.touched s s.senderExpectedNonce m)
  rw [submitIcTxInput, hsup]
  cases suppressed with
  | true => exact htouched
  | false =>
      dsimp only
      split
      · exact htouched
      · rename_i hsize
        split
        · exact htouched
        · rename_i callerEvm hderive
          split_ifs with hseen
          · exact htouched
          · exact htouched
          · split
            · exact htouched
            · obtain ⟨stored, hok⟩ := tryFrom_icSynthetic (encodeIcSyntheticInput_ne_nil tx)
                hcanister hwho hderive tx.maxFeePerGas.toNat tx.maxPriorityFeePerGas.toNat true
              have hsubmitted : Submitted c (.ic who canisterId tx)
                  (icEnvelope c callerEvm who canisterId tx) callerEvm tx.nonce.toNat :=
                .ic (not_lt.mp hsize) hderive
              exact htouched.trans
                (steps_admitPending hs (by simpa using hseen) hok hsubmitted)

theorem steps_applyDrops {s : StableState W} {p : Pool} {drops : List QueuedDrop}
    (h : Consistent c False s p) (hp : Pending p (drops.map QueuedDrop.txId)) :
    PoolSteps c s (applyDrops c evm s drops) := by
  rw [applyDrops]
  induction drops generalizing s p with
  | nil => exact .refl
  | cons d drops ih =>
      obtain ⟨e, he⟩ := hp.pending d.txId (List.mem_cons_self ..)
      have hone := retires_applyDrop evm s p d e h he
      obtain ⟨nonces, heq⟩ :=
        dropPending_eq (c := c) evm h.indexed he d.code d.senderOverride d.nonceOverride
      have hrest := ih hone.consistent (hp.tail hone.kept)
      have hstep : PoolStep c s (applyDrop c evm s d) := by
        rw [applyDrop, heq]
        exact .dropped h he _ _
      rw [List.foldl_cons]
      exact hrest.head hstep

end Kasane.Chain
