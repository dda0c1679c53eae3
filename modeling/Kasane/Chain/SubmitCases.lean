import Kasane.Chain.Consistent
import Kasane.Chain.Tidied

namespace Kasane.Chain

open BigEndian Codec Word Blob

variable {W : Type} {c : Crypto} {evm : Evm W}

def rawEnvelope (c : Crypto) (kind : TxKind) (raw : Bytes) (who : Principal) (tx : TxEnv) :
    StoredTxBytes :=
  ⟨storedTxVersion, storedTxId c kind raw none none none, kind, raw, none, .empty, who,
    (feeFieldsFromTxEnv tx).1, (feeFieldsFromTxEnv tx).2.1, (feeFieldsFromTxEnv tx).2.2⟩

def icEnvelope (c : Crypto) (callerEvm : Address) (who canisterId : Principal)
    (tx : IcSyntheticTxInput) : StoredTxBytes :=
  ⟨storedTxVersion, storedTxId c .icSynthetic (encodeIcSyntheticInput tx) (some callerEvm)
      (some canisterId.bytes) (some who.bytes),
    .icSynthetic, encodeIcSyntheticInput tx, some callerEvm, canisterId, who,
    tx.maxFeePerGas.toNat, tx.maxPriorityFeePerGas.toNat, true⟩

inductive SubmitCall where
  | tx (kind : TxKind) (txBytes : Bytes) (callerPrincipal : Principal)
  | ic (callerPrincipal canisterId : Principal) (tx : IcSyntheticTxInput)

def SubmitCall.run (c : Crypto) (evm : Evm W) (now : Nat) (s : StableState W) :
    SubmitCall → Except ChainError TxId × StableState W
  | .tx kind txBytes who => submitTx c evm now kind txBytes who s
  | .ic who canisterId input => submitIcTxInput c evm now who canisterId input s

-- the envelope that a call hands to the queue, with its sender and nonce
inductive Submitted (c : Crypto) : SubmitCall → StoredTxBytes → Address → Nat → Prop
  | raw {kind : TxKind} {raw : Bytes} {who : Principal} {tx : TxEnv} (size : raw.length ≤ maxTxSize)
      (decoded : decodeTx c kind (zeroArr 20) raw = some tx) :
      Submitted c (.tx kind raw who) (rawEnvelope c kind raw who tx) tx.caller tx.nonce
  | ic {tx : IcSyntheticTxInput} {callerEvm : Address} {who canisterId : Principal}
      (size : (encodeIcSyntheticInput tx).length ≤ maxTxSize)
      (derived : c.deriveEvmAddress who.bytes = some callerEvm) :
      Submitted c (.ic who canisterId tx) (icEnvelope c callerEvm who canisterId tx) callerEvm
        tx.nonce.toNat

-- whose nonce a call is about
def SubmitCall.senders (c : Crypto) (call : SubmitCall) : Set Address :=
  { sender | ∃ envelope nonce, Submitted c call envelope sender nonce }

-- either the call only tidies up behind it, or it ends in the one enqueue
inductive Admission (c : Crypto) (evm : Evm W) (sender : Address) (nonce : Nat)
    (envelope : StoredTxBytes) (s : StableState W) : Except ChainError TxId → StableState W → Prop
  | refused {t : StableState W} (e : ChainError) (tidied : Tidied c evm {sender} s t) :
      Admission c evm sender nonce envelope s (.error e) t
  | queued {t : StableState W} (price : Nat) (tidied : Tidied c evm {sender} s t)
      (expected : t.senderExpectedNonce.get sender = some nonce) :
      Admission c evm sender nonce envelope s (.ok envelope.txId)
        (enqueuePending c t sender nonce price envelope)

theorem admission_admitPending (s : StableState W) (sender : Address)
    (nonce price baseFee : Nat) (envelope : StoredTxBytes) :
    Admission c evm sender nonce envelope s
      (admitPending c evm s sender nonce price baseFee envelope).1
      (admitPending c evm s sender nonce price baseFee envelope).2 := by
  have happly := @tidied_applyNonce W c evm {sender} s sender (Set.mem_singleton sender) nonce
    price baseFee
  rw [admitPending]
  rcases hrun : applyNonceAndReplacement c evm s sender nonce price baseFee with ⟨r, s₁⟩
  rw [hrun] at happly
  cases r with
  | error e => exact .refused e happly
  | ok replaced =>
      have hexpected := expected_applyNonce hrun
      have hcaps : Tidied c evm ∅ s₁ (if replaced.isNone = true then
          enforcePendingCaps c evm s₁ sender envelope.callerPrincipal price
        else (.ok (), s₁)).2 := by
        split_ifs
        · exact tidied_enforceCaps s₁ sender envelope.callerPrincipal price
        · exact .refl
      dsimp only
      rcases hrun' : (if replaced.isNone = true then
        enforcePendingCaps c evm s₁ sender envelope.callerPrincipal price else (.ok (), s₁))
        with ⟨r, s₂⟩
      rw [hrun'] at hcaps
      have hkept := expectedNonce_tidied hcaps
      have htidied := happly.trans (hcaps.mono (Set.empty_subset _))
      cases r with
      | error e => exact .refused e htidied
      | ok _ =>
          dsimp only
          split_ifs
          · exact .refused _ htidied
          · exact .queued price htidied (hkept ▸ hexpected)

def linkPending (s : StableState W) (hashes : OrdMap TxId TxId) (sender : Address)
    (nonce price : Nat) (envelope : StoredTxBytes) : StableState W :=
  trackPendingIndexesOnInsert
    { s with
      seenTx := s.seenTx.insert envelope.txId 1
      txStore := s.txStore.insert envelope.txId envelope
      ethTxHashIndex := hashes
      pendingCurrentBySender := s.pendingCurrentBySender.insert sender envelope.txId
      queueMeta := s.queueMeta.push.2
      txLocs := s.txLocs.insert envelope.txId (TxLoc.queued s.queueMeta.push.1)
      chainState := { s.chainState with nextQueueSeq := s.queueMeta.push.2.tail }
      pendingBySenderNonce := s.pendingBySenderNonce.insert ⟨sender, nonce⟩ envelope.txId
      pendingMetaByTxId := s.pendingMetaByTxId.insert envelope.txId ⟨sender, nonce⟩ }
    envelope.txId envelope.callerPrincipal price

theorem insertEthTxHashIndex_eq (s : StableState W) (id : TxId) (envelope : StoredTxBytes) :
    ∃ hashes, (if envelope.kind = .ethSigned then insertEthTxHashIndexForEnvelope c s id envelope
      else s) = { s with ethTxHashIndex := hashes } := by
  rw [insertEthTxHashIndexForEnvelope]
  split_ifs
  · split
    · split_ifs
      · exact ⟨_, rfl⟩
      · exact ⟨_, rfl⟩
    · exact ⟨_, rfl⟩
  · exact ⟨_, rfl⟩

theorem enqueuePending_linked (s : StableState W) (sender : Address) (nonce price : Nat)
    (envelope : StoredTxBytes) :
    ∃ hashes, enqueuePending c s sender nonce price envelope =
      promoteIfNextNonce (linkPending s hashes sender nonce price envelope) sender envelope.txId
        nonce envelope s.queueMeta.push.1 := by
  obtain ⟨hashes, hhashes⟩ := insertEthTxHashIndex_eq (c := c)
    { s with
      seenTx := s.seenTx.insert envelope.txId 1
      txStore := s.txStore.insert envelope.txId envelope } envelope.txId envelope
  rw [enqueuePending, hhashes]
  exact ⟨hashes, rfl⟩

-- promoting a transaction touches nothing but the queues that order the pending ones
structure SameHistory (s t : StableState W) : Prop where
  seenTx : t.seenTx = s.seenTx
  txStore : t.txStore = s.txStore
  txLocs : t.txLocs = s.txLocs
  ethTxHashIndex : t.ethTxHashIndex = s.ethTxHashIndex
  pendingMetaByTxId : t.pendingMetaByTxId = s.pendingMetaByTxId
  senderExpectedNonce : t.senderExpectedNonce = s.senderExpectedNonce
  droppedRing : t.droppedRing = s.droppedRing
  droppedRingState : t.droppedRingState = s.droppedRingState
  queueMeta : t.queueMeta = s.queueMeta

theorem sameHistory_removeReady (s : StableState W) (id : TxId) :
    SameHistory s (removeReadyByTxId s id) := by
  rw [removeReadyByTxId]
  split
  · exact ⟨rfl, rfl, rfl, rfl, rfl, rfl, rfl, rfl, rfl⟩
  · exact ⟨rfl, rfl, rfl, rfl, rfl, rfl, rfl, rfl, rfl⟩

theorem sameHistory_promote (s : StableState W) (sender : Address) (id : TxId) (nonce : Nat)
    (envelope : StoredTxBytes) (seq : Nat) :
    SameHistory s (promoteIfNextNonce s sender id nonce envelope seq) := by
  rw [promoteIfNextNonce]
  split
  · exact ⟨rfl, rfl, rfl, rfl, rfl, rfl, rfl, rfl, rfl⟩
  · split
    · exact ⟨rfl, rfl, rfl, rfl, rfl, rfl, rfl, rfl, rfl⟩
    · split
      · exact ⟨rfl, rfl, rfl, rfl, rfl, rfl, rfl, rfl, rfl⟩
      · rename_i old _
        have h := sameHistory_removeReady s old
        exact ⟨h.seenTx, h.txStore, h.txLocs, h.ethTxHashIndex, h.pendingMetaByTxId,
          h.senderExpectedNonce, h.droppedRing, h.droppedRingState, h.queueMeta⟩
  · exact ⟨rfl, rfl, rfl, rfl, rfl, rfl, rfl, rfl, rfl⟩

theorem txStore_enqueuePending (s : StableState W) (sender : Address) (nonce price : Nat)
    (envelope : StoredTxBytes) : (enqueuePending c s sender nonce price envelope).txStore =
      s.txStore.insert envelope.txId envelope := by
  obtain ⟨hashes, heq⟩ := enqueuePending_linked (c := c) s sender nonce price envelope
  rw [heq, (sameHistory_promote ..).txStore]
  rfl

inductive Submission (c : Crypto) (evm : Evm W) (call : SubmitCall) (s : StableState W) :
    Except ChainError TxId → StableState W → Prop
  | refused {t : StableState W} (e : ChainError) (tidied : Tidied c evm (call.senders c) s t) :
      Submission c evm call s (.error e) t
  | queued {t : StableState W} {envelope : StoredTxBytes} {sender : Address} {nonce : Nat}
      (price : Nat) (submitted : Submitted c call envelope sender nonce)
      (fresh : s.seenTx.get envelope.txId = none) (tidied : Tidied c evm (call.senders c) s t)
      (expected : t.senderExpectedNonce.get sender = some nonce) :
      Submission c evm call s (.ok envelope.txId) (enqueuePending c t sender nonce price envelope)

theorem submission_of_admission {call : SubmitCall} {s t u : StableState W} {sender : Address}
    {nonce : Nat} {envelope : StoredTxBytes} {r : Except ChainError TxId}
    (htidied : Tidied c evm (call.senders c) s t) (h : Admission c evm sender nonce envelope t r u)
    (hsubmitted : Submitted c call envelope sender nonce)
    (hfresh : s.seenTx.get envelope.txId = none) : Submission c evm call s r u := by
  have hsub : {sender} ⊆ call.senders c :=
    Set.singleton_subset_iff.mpr ⟨envelope, nonce, hsubmitted⟩
  cases h with
  | refused e tidied => exact .refused e (htidied.trans (tidied.mono hsub))
  | queued price tidied expected =>
      exact .queued price hsubmitted hfresh (htidied.trans (tidied.mono hsub)) expected

theorem submission_submitTx (s : StableState W) (now : Nat) (kind : TxKind)
    (raw : Bytes) (who : Principal) :
    Submission c evm (.tx kind raw who) s (submitTx c evm now kind raw who s).1
      (submitTx c evm now kind raw who s).2 := by
  obtain ⟨suppressed, m, hsup⟩ := isPrincipalDecodeSuppressed_eq s who now
  have htidied {who : Set Address} : Tidied c evm who s { s with decodeSuppressUntil := m } :=
    .single (.suppressed s m)
  rw [submitTx, hsup]
  cases suppressed with
  | true => exact .refused _ htidied
  | false =>
      dsimp only
      split_ifs with hsize hseen
      · exact .refused _ htidied
      · exact .refused _ htidied
      · split
        · exact .refused _ htidied
        · rename_i tx htx
          split
          · exact .refused _ htidied
          · split
            · exact .refused _ htidied
            · exact submission_of_admission htidied (admission_admitPending ..)
                (.raw (not_lt.mp hsize) htx) (by simpa using hseen)

theorem submission_submitIcTxInput (s : StableState W) (now : Nat)
    (who canisterId : Principal) (tx : IcSyntheticTxInput) :
    Submission c evm (.ic who canisterId tx) s (submitIcTxInput c evm now who canisterId tx s).1
      (submitIcTxInput c evm now who canisterId tx s).2 := by
  obtain ⟨suppressed, m, hsup⟩ := isPrincipalDecodeSuppressed_eq s who now
  have htidied {who : Set Address} : Tidied c evm who s { s with decodeSuppressUntil := m } :=
    .single (.suppressed s m)
  rw [submitIcTxInput, hsup]
  cases suppressed with
  | true => exact .refused _ htidied
  | false =>
      dsimp only
      split
      · exact .refused _ htidied
      · rename_i hsize
        split
        · exact .refused _ htidied
        · rename_i callerEvm hderived
          split_ifs with hseen
          · exact .refused _ htidied
          · exact .refused _ htidied
          · split
            · exact .refused _ htidied
            · exact submission_of_admission htidied (admission_admitPending ..)
                (.ic (not_lt.mp hsize) hderived) (by simpa using hseen)

theorem submission_run (s : StableState W) (now : Nat) (call : SubmitCall) :
    Submission c evm call s (call.run c evm now s).1 (call.run c evm now s).2 := by
  cases call with
  | tx kind raw who => exact submission_submitTx s now kind raw who
  | ic who canisterId tx => exact submission_submitIcTxInput s now who canisterId tx

end Kasane.Chain
