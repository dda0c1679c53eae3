import Kasane.Chain.Mempool

namespace Kasane.Chain

open BigEndian Codec Word Blob

variable {W : Type} (c : Crypto) (evm : Evm W)

def expireSuppressed (m : OrdMap Principal Nat) (now : Nat) : OrdMap Principal Nat :=
  m.entries.foldl (fun m e => if e.2 ≤ now then m.remove e.1 else m) m

def isPrincipalDecodeSuppressed (s : StableState W) (principal : Principal) (now : Nat) :
    Bool × StableState W :=
  if principal.bytes = [] then (false, s)
  else
    let m := expireSuppressed s.decodeSuppressUntil now
    (((m.get principal).map (fun until_ => decide (until_ > now))).getD false,
      { s with decodeSuppressUntil := m })

def expectedNonceForSender (s : StableState W) (sender : Address) : Nat × StableState W :=
  match s.senderExpectedNonce.get sender with
  | some value => (value, s)
  | none =>
      let nonce := accountNonceFromState evm s sender
      (nonce, { s with senderExpectedNonce := s.senderExpectedNonce.insert sender nonce })

def effectiveGasPriceForTx (s : StableState W) (id : TxId) (baseFee : Nat) : Option Nat :=
  match storedTx c s id with
  | some (.ok stored) => stored.effectiveGasPrice baseFee
  | _ => none

def pendingPriceForSender (s : StableState W) (sender : Address) (baseFee : Nat) :
    Except ChainError (Option Nat) :=
  match s.pendingCurrentBySender.get sender with
  | none => .ok none
  | some old =>
      match effectiveGasPriceForTx c s old baseFee with
      | some price => .ok (some price)
      | none => .error .nonceConflict

def replaceCurrent (s : StableState W) (sender : Address) : Except ChainError (Option TxId) × StableState W :=
  match s.pendingCurrentBySender.get sender with
  | none => (.error .nonceConflict, s)
  | some old => (.ok (some old), replacePendingForSender c s sender old)

def applyNonceAndReplacement (s : StableState W) (sender : Address) (nonce price baseFee : Nat) :
    Except ChainError (Option TxId) × StableState W :=
  let (expected, s) := expectedNonceForSender evm s sender
  if nonce < expected then (.error .nonceTooLow, s)
  else if nonce > expected then (.error .nonceGap, s)
  else
    match pendingPriceForSender c s sender baseFee with
    | .error e => (.error e, s)
    | .ok old =>
        match classifyNonce expected nonce old price with
        | .accept => (.ok none, s)
        | .tooLow => (.error .nonceTooLow, s)
        | .gap => (.error .nonceGap, s)
        | .conflict => (.error .nonceConflict, s)
        | .replace => replaceCurrent c s sender

def countPendingForSender (s : StableState W) (sender : Address) : Nat :=
  ((s.pendingBySenderNonce.rangeFrom ⟨sender, 0⟩).takeWhile
    (fun e => decide (e.1.sender = sender))).length

def countPendingForPrincipal (s : StableState W) (principal : Principal) : Nat :=
  if principal.bytes = [] then 0
  else (s.principalPendingCount.get (CallerKey.fromPrincipalBytes principal)).getD 0

def evictLowestFeePending (s : StableState W) (price : Nat) :
    Except ChainError Unit × StableState W :=
  match s.pendingFeeIndex.first with
  | none => (.error .queueFull, s)
  | some (key, evicted) =>
      if price ≤ key.effectiveGasPrice then (.error .queueFull, s)
      else (.ok (), dropPending c evm s evicted .replaced none none)

def enforcePendingCaps (s : StableState W) (sender : Address) (principal : Principal)
    (price : Nat) : Except ChainError Unit × StableState W :=
  let lowest := s.pendingFeeIndex.first.map (fun e => e.1.effectiveGasPrice)
  match classifyPendingCaps (countPendingForSender s sender) (countPendingForPrincipal s principal)
      s.pendingBySenderNonce.len price lowest with
  | .accept => (.ok (), s)
  | .senderFull => (.error .senderQueueFull, s)
  | .principalFull => (.error .principalQueueFull, s)
  | .globalFull => (.error .queueFull, s)
  | .evictLowest => evictLowestFeePending c evm s price

def promoteIfNextNonce (s : StableState W) (sender : Address) (id : TxId) (nonce : Nat)
    (envelope : StoredTxBytes) (seq : Nat) : StableState W :=
  let ready (s : StableState W) : StableState W :=
    insertReady { s with pendingMinNonce := s.pendingMinNonce.insert sender nonce } id
      envelope.maxFeePerGas envelope.maxPriorityFeePerGas envelope.isDynamicFee seq
  match classifyPromote (s.pendingMinNonce.get sender) nonce with
  | .insertFirst => ready s
  | .replaceMin =>
      match s.pendingMinNonce.get sender with
      | none => ready s
      | some current =>
          match s.pendingBySenderNonce.get ⟨sender, current⟩ with
          | none => ready s
          | some old => ready (removeReadyByTxId s old)
  | .keepCurrent => s

def enqueuePending (s : StableState W) (sender : Address) (nonce price : Nat)
    (envelope : StoredTxBytes) : StableState W :=
  let id := envelope.txId
  let key : SenderNonceKey := ⟨sender, nonce⟩
  let s := { s with
    seenTx := s.seenTx.insert id 1
    txStore := s.txStore.insert id envelope }
  let s := if envelope.kind = .ethSigned then insertEthTxHashIndexForEnvelope c s id envelope else s
  let s := { s with pendingCurrentBySender := s.pendingCurrentBySender.insert sender id }
  let (seq, queueMeta) := s.queueMeta.push
  let s := { s with queueMeta := queueMeta }
  let s := txLocsInsert s id (TxLoc.queued seq)
  let s := { s with chainState := { s.chainState with nextQueueSeq := queueMeta.tail } }
  let s := { s with
    pendingBySenderNonce := s.pendingBySenderNonce.insert key id
    pendingMetaByTxId := s.pendingMetaByTxId.insert id key }
  let s := trackPendingIndexesOnInsert s id envelope.callerPrincipal price
  promoteIfNextNonce s sender id nonce envelope seq

def admitPending (s : StableState W) (sender : Address) (nonce price baseFee : Nat)
    (envelope : StoredTxBytes) : Except ChainError TxId × StableState W :=
  match applyNonceAndReplacement c evm s sender nonce price baseFee with
  | (.error e, s) => (.error e, s)
  | (.ok replaced, s) =>
      match (if replaced.isNone then enforcePendingCaps c evm s sender envelope.callerPrincipal price
        else (.ok (), s)) with
      | (.error e, s) => (.error e, s)
      | (.ok (), s) =>
          if (s.pendingBySenderNonce.get ⟨sender, nonce⟩).isSome then (.error .nonceConflict, s)
          else (.ok envelope.txId, enqueuePending c s sender nonce price envelope)

def submitTx (now : Nat) (kind : TxKind) (txBytes : Bytes) (callerPrincipal : Principal)
    (s : StableState W) : Except ChainError TxId × StableState W :=
  match isPrincipalDecodeSuppressed s callerPrincipal now with
  | (true, s) => (.error .decodeRateLimited, s)
  | (false, s) =>
      let id := storedTxId c kind txBytes none none none
      if txBytes.length > maxTxSize then (.error .txTooLarge, s)
      else if (s.seenTx.get id).isSome then (.error .txAlreadySeen, s)
      else
        match decodeTx c kind (zeroArr 20) txBytes with
        | none => (.error .decodeFailed, s)
        | some tx =>
            let (maxFee, maxPriority, isDynamicFee) := feeFieldsFromTxEnv tx
            let envelope : StoredTxBytes :=
              ⟨storedTxVersion, id, kind, txBytes, none, .empty, callerPrincipal, maxFee,
                maxPriority, isDynamicFee⟩
            let baseFee := s.chainState.baseFee
            if minFeeSatisfied tx.gasPrice tx.gasPriorityFee baseFee s.chainState.minPriorityFee
                s.chainState.minGasPrice = false then (.error .invalidFee, s)
            else
              match effectiveGasPrice maxFee (if isDynamicFee then maxPriority else 0) baseFee with
              | none => (.error .invalidFee, s)
              | some price => admitPending c evm s tx.caller tx.nonce price baseFee envelope

def submitIcTxInput (now : Nat) (callerPrincipal canisterId : Principal) (tx : IcSyntheticTxInput)
    (s : StableState W) : Except ChainError TxId × StableState W :=
  match isPrincipalDecodeSuppressed s callerPrincipal now with
  | (true, s) => (.error .decodeRateLimited, s)
  | (false, s) =>
      let txBytes := encodeIcSyntheticInput tx
      if txBytes.length > maxTxSize then (.error .txTooLarge, s)
      else
        match c.deriveEvmAddress callerPrincipal.bytes with
        | none => (.error .addressDerivationFailed, s)
        | some callerEvm =>
            let id := storedTxId c .icSynthetic txBytes (some callerEvm) (some canisterId.bytes)
              (some callerPrincipal.bytes)
            if (s.seenTx.get id).isSome then (.error .txAlreadySeen, s)
            else
              let maxFee := tx.maxFeePerGas.toNat
              let maxPriority := tx.maxPriorityFeePerGas.toNat
              let envelope : StoredTxBytes :=
                ⟨storedTxVersion, id, .icSynthetic, txBytes, some callerEvm, canisterId,
                  callerPrincipal, maxFee, maxPriority, true⟩
              let baseFee := s.chainState.baseFee
              if minFeeSatisfied maxFee (some maxPriority) baseFee s.chainState.minPriorityFee
                  s.chainState.minGasPrice = false then (.error .invalidFee, s)
              else
                match effectiveGasPrice maxFee maxPriority baseFee with
                | none => (.error .invalidFee, s)
                | some price =>
                    admitPending c evm s callerEvm tx.nonce.toNat price baseFee envelope

end Kasane.Chain
