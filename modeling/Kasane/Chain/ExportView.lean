import Kasane.Chain.PendingIndexes

namespace Kasane.Chain

open BigEndian Codec Word Blob

variable {W : Type}

-- what an export reads besides the stored transactions
structure ExportView where
  head : Head
  blobStore : BlobStore
  blocks : OrdMap Nat BlobPtr
  receipts : OrdMap TxId BlobPtr
  txIndex : OrdMap TxId BlobPtr
  internalTraces : OrdMap TxId BlobPtr
  pruneState : PruneState

def StableState.exportView (s : StableState W) : ExportView :=
  ⟨s.head, s.blobStore, s.blocks, s.receipts, s.txIndex, s.internalTraces, s.pruneState⟩

variable {c : Crypto} {evm : Evm W} (s : StableState W)

theorem view_removePendingFee (id : TxId) :
    (removePendingFeeIndexByTxId s id).exportView = s.exportView := by
  obtain ⟨keys, index, heq⟩ := removePendingFeeIndexByTxId_eq s id
  rw [heq]
  rfl

theorem view_decrementPrincipal (id : TxId) :
    (decrementPrincipalPendingCountForTx c s id).exportView = s.exportView := by
  obtain ⟨counts, heq⟩ := decrementPrincipalPendingCountForTx_eq c s id
  rw [heq]
  rfl

theorem view_removeEthTxHash (id : TxId) :
    (removeEthTxHashIndexForTxId c s id).exportView = s.exportView := by
  obtain ⟨index, heq⟩ := removeEthTxHashIndexForTxId_eq c s id
  rw [heq]
  rfl

theorem view_removeReady (id : TxId) : (removeReadyByTxId s id).exportView = s.exportView := by
  rw [removeReadyByTxId]
  split
  · rfl
  · rfl

theorem view_pushDroppedRing (id : TxId) : (pushDroppedRing s id).exportView = s.exportView := by
  rw [pushDroppedRing]
  dsimp only
  split
  · rfl
  · split
    · rfl
    · split
      · split_ifs
        · rfl
        · rfl
      · rfl

theorem view_markDropped (id : TxId) (code : DropCode) :
    (markDroppedAndPurgePayload c s id code).exportView = s.exportView := by
  rw [markDroppedAndPurgePayload]
  rw [view_pushDroppedRing]
  exact (view_removeEthTxHash _ id).trans (view_removePendingFee s id)

theorem view_finalizePending (sender : Address) (id : TxId) (bump : Bool) :
    (finalizePendingForSender evm s sender id bump).exportView = s.exportView := by
  rw [finalizePendingForSender]
  split_ifs
  · rfl
  · rfl
  · rfl
  · rfl

theorem view_unlinkPending (id : TxId) (key : SenderNonceKey) (bump : Bool) :
    (unlinkPending c evm s id key bump).exportView = s.exportView := by
  rw [unlinkPending]
  rw [view_finalizePending, view_decrementPrincipal, view_removePendingFee]
  rfl

-- the two functions call each other, so one induction on the fuel carries both
theorem view_advance (fuel : Nat) :
    (∀ (s : StableState W) (id : TxId) (sender : Option Address) (nonce : Option Nat) (bump : Bool),
      (advanceSenderAfterTx c evm fuel s id sender nonce bump).exportView = s.exportView) ∧
    ∀ (s : StableState W) (sender : Address) (cursorNonce : Nat),
      (promoteNextPending c evm fuel s sender cursorNonce).exportView = s.exportView := by
  induction fuel with
  | zero => exact ⟨fun _ _ _ _ _ => by rw [advanceSenderAfterTx], fun _ _ _ => by rw [promoteNextPending]⟩
  | succ fuel ih =>
      obtain ⟨ihadvance, ihpromote⟩ := ih
      refine ⟨?_, ?_⟩
      · intro s id sender nonce bump
        rw [advanceSenderAfterTx]
        dsimp only
        split
        · exact view_removeReady s id
        · rename_i key _
          have hunlinked : (unlinkPending c evm (removeReadyByTxId s id) id key bump).exportView =
              s.exportView := (view_unlinkPending _ id key bump).trans (view_removeReady s id)
          split_ifs
          · exact (ihpromote _ _ _).trans hunlinked
          · exact hunlinked
      · intro s sender cursorNonce
        rw [promoteNextPending]
        split
        · rfl
        · dsimp only
          split
          · rfl
          · rw [ihpromote, view_markDropped, ihadvance]
            rfl
          · rw [ihpromote, view_markDropped, ihadvance]
            rfl

theorem view_advanceSender (id : TxId) (sender : Option Address) (nonce : Option Nat) (bump : Bool) :
    (advanceSender c evm s id sender nonce bump).exportView = s.exportView :=
  (view_advance _).1 s id sender nonce bump

theorem view_dropPending (id : TxId) (code : DropCode) (sender : Option Address)
    (nonce : Option Nat) : (dropPending c evm s id code sender nonce).exportView = s.exportView := by
  rw [dropPending, view_markDropped, view_advanceSender]

theorem view_replacePending (sender : Address) (old : TxId) :
    (replacePendingForSender c s sender old).exportView = s.exportView := by
  have hold : (decrementPrincipalPendingCountForTx c
      (removePendingFeeIndexByTxId (removeReadyByTxId s old) old) old).exportView = s.exportView := by
    rw [view_decrementPrincipal, view_removePendingFee, view_removeReady]
  rw [replacePendingForSender]
  rw [view_markDropped]
  split
  · exact hold
  · exact hold

theorem view_promoteIfNextNonce (sender : Address) (id : TxId) (nonce : Nat)
    (envelope : StoredTxBytes) (seq : Nat) :
    (promoteIfNextNonce s sender id nonce envelope seq).exportView = s.exportView := by
  rw [promoteIfNextNonce]
  dsimp only
  split
  · rfl
  · split
    · rfl
    · split
      · rfl
      · exact view_removeReady s _
  · rfl

theorem view_enqueuePending (sender : Address) (nonce price : Nat) (envelope : StoredTxBytes) :
    (enqueuePending c s sender nonce price envelope).exportView = s.exportView := by
  have hindexed (s : StableState W) : (insertEthTxHashIndexForEnvelope c s envelope.txId
      envelope).exportView = s.exportView := by
    rw [insertEthTxHashIndexForEnvelope]
    split
    · split_ifs
      · rfl
      · rfl
    · rfl
  rw [enqueuePending]
  dsimp only
  rw [view_promoteIfNextNonce]
  split_ifs
  · exact hindexed _
  · rfl

theorem view_applyNonce (sender : Address) (nonce price baseFee : Nat) :
    (applyNonceAndReplacement c evm s sender nonce price baseFee).2.exportView = s.exportView := by
  have hexpected : (expectedNonceForSender evm s sender).2.exportView = s.exportView := by
    rw [expectedNonceForSender]
    split
    · rfl
    · rfl
  rw [applyNonceAndReplacement]
  generalize expectedNonceForSender evm s sender = r at hexpected
  dsimp only
  split_ifs
  · exact hexpected
  · exact hexpected
  · split
    · exact hexpected
    · split
      · exact hexpected
      · exact hexpected
      · exact hexpected
      · exact hexpected
      · rw [replaceCurrent]
        split
        · exact hexpected
        · exact (view_replacePending r.2 sender _).trans hexpected

theorem view_enforcePendingCaps (sender : Address) (principal : Principal) (price : Nat) :
    (enforcePendingCaps c evm s sender principal price).2.exportView = s.exportView := by
  rw [enforcePendingCaps]
  split
  · rfl
  · rfl
  · rfl
  · rfl
  · rw [evictLowestFeePending]
    split
    · rfl
    · split_ifs
      · rfl
      · exact view_dropPending s _ _ _ _

theorem view_admitPending (sender : Address) (nonce price baseFee : Nat) (envelope : StoredTxBytes) :
    (admitPending c evm s sender nonce price baseFee envelope).2.exportView = s.exportView := by
  have happlied : (applyNonceAndReplacement c evm s sender nonce price baseFee).2.exportView =
      s.exportView := view_applyNonce s sender nonce price baseFee
  rw [admitPending]
  generalize applyNonceAndReplacement c evm s sender nonce price baseFee = r at happlied
  obtain ⟨result, s₁⟩ := r
  cases result with
  | error e => exact happlied
  | ok replaced =>
      have hcaps : (if replaced.isNone then
          enforcePendingCaps c evm s₁ sender envelope.callerPrincipal price
            else (.ok (), s₁)).2.exportView = s.exportView := by
        split_ifs
        · exact (view_enforcePendingCaps s₁ sender envelope.callerPrincipal price).trans happlied
        · exact happlied
      dsimp only
      generalize (if replaced.isNone then
        enforcePendingCaps c evm s₁ sender envelope.callerPrincipal price else (.ok (), s₁)) = r at hcaps
      obtain ⟨result, s₂⟩ := r
      cases result with
      | error e => exact hcaps
      | ok a =>
          dsimp only
          split_ifs
          · exact hcaps
          · exact (view_enqueuePending s₂ sender nonce price envelope).trans hcaps

theorem view_isPrincipalDecodeSuppressed (principal : Principal) (now : Nat) :
    (isPrincipalDecodeSuppressed s principal now).2.exportView = s.exportView := by
  rw [isPrincipalDecodeSuppressed]
  split_ifs
  · rfl
  · rfl

theorem view_submitTx (now : Nat) (kind : TxKind) (txBytes : Bytes) (who : Principal) :
    (submitTx c evm now kind txBytes who s).2.exportView = s.exportView := by
  have hsuppressed := view_isPrincipalDecodeSuppressed s who now
  rw [submitTx]
  generalize isPrincipalDecodeSuppressed s who now = r at hsuppressed
  obtain ⟨suppressed, s₁⟩ := r
  cases suppressed with
  | true => exact hsuppressed
  | false =>
      dsimp only
      split
      · exact hsuppressed
      · split
        · exact hsuppressed
        · split
          · exact hsuppressed
          · split
            · exact hsuppressed
            · split
              · exact hsuppressed
              · exact (view_admitPending ..).trans hsuppressed

theorem view_submitIcTxInput (now : Nat) (who canisterId : Principal) (tx : IcSyntheticTxInput) :
    (submitIcTxInput c evm now who canisterId tx s).2.exportView = s.exportView := by
  have hsuppressed := view_isPrincipalDecodeSuppressed s who now
  rw [submitIcTxInput]
  generalize isPrincipalDecodeSuppressed s who now = r at hsuppressed
  obtain ⟨suppressed, s₁⟩ := r
  cases suppressed with
  | true => exact hsuppressed
  | false =>
      dsimp only
      split
      · exact hsuppressed
      · split
        · exact hsuppressed
        · split
          · exact hsuppressed
          · split
            · exact hsuppressed
            · split
              · exact hsuppressed
              · exact (view_admitPending ..).trans hsuppressed

theorem view_foldl {A : Type} {f : StableState W → A → StableState W}
    (hf : ∀ s a, (f s a).exportView = s.exportView) (l : List A) :
    (l.foldl f s).exportView = s.exportView := by
  induction l generalizing s with
  | nil => rfl
  | cons a l ih => exact (ih (f s a)).trans (hf s a)

theorem view_applyDrop (d : QueuedDrop) : (applyDrop c evm s d).exportView = s.exportView :=
  view_dropPending s d.txId d.code d.senderOverride d.nonceOverride

theorem view_applyDrops (drops : List QueuedDrop) :
    (applyDrops c evm s drops).exportView = s.exportView :=
  view_foldl (f := applyDrop c evm) s view_applyDrop drops

theorem view_indexPendingFee (baseFee : Nat) (id : TxId) :
    (indexPendingFee c baseFee s id).exportView = s.exportView := by
  rw [indexPendingFee]
  split
  · rfl
  · rfl

theorem view_rebuildPendingFee (baseFee : Nat) :
    (rebuildPendingFeeIndexForBaseFee c s baseFee).exportView = s.exportView := by
  rw [rebuildPendingFeeIndexForBaseFee]
  exact view_foldl (f := indexPendingFee c baseFee) _ (fun s id => view_indexPendingFee s baseFee id) _

theorem view_recountPending (id : TxId) : (recountPending c evm s id).exportView = s.exportView := by
  rw [recountPending]
  split
  · rfl
  · exact view_dropPending s id _ _ _
  · split_ifs
    · rfl
    · rfl

theorem view_rebuildPendingRuntime :
    (rebuildPendingRuntimeIndexes c evm s).exportView = s.exportView := by
  have hready (s : StableState W) (entry : TxId × ReadyKey) :
      (indexReadySeq s entry).exportView = s.exportView := rfl
  rw [rebuildPendingRuntimeIndexes]
  dsimp only
  refine (view_foldl (f := indexReadySeq) _ hready _).trans ?_
  refine (view_rebuildPendingFee _ _).trans ?_
  exact view_foldl (f := recountPending c evm) _ view_recountPending _

end Kasane.Chain
