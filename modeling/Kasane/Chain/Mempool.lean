import Kasane.Chain.State

namespace Kasane.Chain

open BigEndian Codec Word Blob

def droppedRingCapacity : Nat := 1000

def maxPendingGlobal : Nat := 8192

def maxPendingPerSender : Nat := 64

def maxPendingPerPrincipal : Nat := 32

inductive CountAfterDecrement where
  | remove
  | set (next : Nat)
deriving DecidableEq, Repr

def decrementCount (current : Nat) : CountAfterDecrement :=
  if current ≤ 1 then .remove else .set (current - 1)

inductive PromoteDecision where
  | insertFirst
  | replaceMin
  | keepCurrent
deriving DecidableEq, Repr

def classifyPromote (currentMin : Option Nat) (incoming : Nat) : PromoteDecision :=
  match currentMin with
  | none => .insertFirst
  | some current => if incoming < current then .replaceMin else .keepCurrent

inductive PendingCapDecision where
  | accept
  | senderFull
  | principalFull
  | globalFull
  | evictLowest
deriving DecidableEq, Repr

def classifyPendingCaps (senderCount principalCount globalCount incoming : Nat)
    (lowest : Option Nat) : PendingCapDecision :=
  if senderCount ≥ maxPendingPerSender then .senderFull
  else if principalCount ≥ maxPendingPerPrincipal then .principalFull
  else if globalCount < maxPendingGlobal then .accept
  else
    match lowest with
    | some lowest => if incoming > lowest then .evictLowest else .globalFull
    | none => .globalFull

inductive NonceDecision where
  | accept
  | tooLow
  | gap
  | conflict
  | replace
deriving DecidableEq, Repr

def classifyNonce (expected incoming : Nat) (pendingPrice : Option Nat) (price : Nat) :
    NonceDecision :=
  if incoming < expected then .tooLow
  else if incoming > expected then .gap
  else
    match pendingPrice with
    | some old => if price ≤ old then .conflict else .replace
    | none => .accept

structure DroppedRingTransition where
  insertSeq : Nat
  next : DroppedRingState
  evictSeq : Option Nat

def DroppedRingState.push (ring : DroppedRingState) (capacity : Nat) : DroppedRingTransition :=
  let nextSeq := saturatingAdd u64Max ring.nextSeq 1
  if ring.len < capacity then
    ⟨ring.nextSeq, ⟨nextSeq, saturatingAdd u32Max ring.len 1⟩, none⟩
  else ⟨ring.nextSeq, ⟨nextSeq, ring.len⟩, some (ring.nextSeq - capacity)⟩

inductive DropCode where
  | decode
  | exec
  | missing
  | callerMissing
  | invalidFee
  | replaced
  | resultTooLarge
  | blockGasExceeded
  | instructionBudget
  | execPrecheck
deriving DecidableEq, Repr

def DropCode.toNat : DropCode → Nat
  | .decode => 1
  | .exec => 2
  | .missing => 3
  | .callerMissing => 4
  | .invalidFee => 5
  | .replaced => 6
  | .resultTooLarge => 7
  | .blockGasExceeded => 8
  | .instructionBudget => 9
  | .execPrecheck => 10

variable {W : Type} (c : Crypto) (evm : Evm W)

def removePendingFeeIndexByTxId (s : StableState W) (id : TxId) : StableState W :=
  match s.pendingFeeKeyByTxId.get id with
  | none => s
  | some key =>
      { s with
        pendingFeeKeyByTxId := s.pendingFeeKeyByTxId.remove id
        pendingFeeIndex := s.pendingFeeIndex.remove key }

theorem removePendingFeeIndexByTxId_eq (s : StableState W) (id : TxId) :
    ∃ keys index, removePendingFeeIndexByTxId s id =
      { s with pendingFeeKeyByTxId := keys, pendingFeeIndex := index } := by
  rw [removePendingFeeIndexByTxId]
  split
  · exact ⟨_, _, rfl⟩
  · exact ⟨_, _, rfl⟩

def decrementPrincipalPendingCountForTx (s : StableState W) (id : TxId) : StableState W :=
  match storedTx c s id with
  | some (.ok stored) =>
      let key := CallerKey.fromPrincipalBytes stored.callerPrincipal
      match decrementCount ((s.principalPendingCount.get key).getD 0) with
      | .remove => { s with principalPendingCount := s.principalPendingCount.remove key }
      | .set next => { s with principalPendingCount := s.principalPendingCount.insert key next }
  | _ => s

theorem decrementPrincipalPendingCountForTx_eq (s : StableState W) (id : TxId) :
    ∃ counts, decrementPrincipalPendingCountForTx c s id =
      { s with principalPendingCount := counts } := by
  rw [decrementPrincipalPendingCountForTx]
  split
  · dsimp only
    split
    · exact ⟨_, rfl⟩
    · exact ⟨_, rfl⟩
  · exact ⟨_, rfl⟩

theorem removeEthTxHashIndexForTxId_eq (s : StableState W) (id : TxId) :
    ∃ index, removeEthTxHashIndexForTxId c s id = { s with ethTxHashIndex := index } := by
  rw [removeEthTxHashIndexForTxId]
  split
  · split_ifs
    · exact ⟨_, rfl⟩
    · exact ⟨_, rfl⟩
  · exact ⟨_, rfl⟩

def insertReady (s : StableState W) (id : TxId) (maxFeePerGas maxPriorityFeePerGas : Nat)
    (isDynamicFee : Bool) (seq : Nat) : StableState W :=
  let key := ReadyKey.new maxFeePerGas (if isDynamicFee then maxPriorityFeePerGas else 0) seq id
  { s with
    readyQueue := s.readyQueue.insert key id
    readyBySeq := s.readyBySeq.insert ⟨seq, id⟩ id
    readyKeyByTxId := s.readyKeyByTxId.insert id key }

def removeReadyByTxId (s : StableState W) (id : TxId) : StableState W :=
  match s.readyKeyByTxId.get id with
  | none => s
  | some key =>
      { s with
        readyKeyByTxId := s.readyKeyByTxId.remove id
        readyQueue := s.readyQueue.remove key
        readyBySeq := s.readyBySeq.remove ⟨key.seq, id⟩ }

def pushDroppedRing (s : StableState W) (id : TxId) : StableState W :=
  let t := s.droppedRingState.push droppedRingCapacity
  let s := { s with droppedRing := s.droppedRing.insert t.insertSeq id }
  let s :=
    match t.evictSeq with
    | none => s
    | some evictSeq =>
        match s.droppedRing.get evictSeq with
        | none => s
        | some evicted =>
            let s := { s with droppedRing := s.droppedRing.remove evictSeq }
            match txLocsGet s evicted with
            | some loc => if loc.kind = TxLocKind.dropped then txLocsRemove s evicted else s
            | none => s
  { s with droppedRingState := t.next }

def markDroppedAndPurgePayload (s : StableState W) (id : TxId) (code : DropCode) : StableState W :=
  let s := removePendingFeeIndexByTxId s id
  let s := removeEthTxHashIndexForTxId c s id
  let s := { s with txStore := s.txStore.remove id }
  let s := txLocsInsert s id (TxLoc.dropped code.toNat)
  pushDroppedRing s id

def accountNonceFromState (s : StableState W) (sender : Address) : Nat :=
  evm.accountNonce s.world sender

def bumpExpectedNonce (s : StableState W) (sender : Address) : StableState W :=
  let current := (s.senderExpectedNonce.get sender).getD (accountNonceFromState evm s sender)
  { s with
    senderExpectedNonce := s.senderExpectedNonce.insert sender (saturatingAdd u64Max current 1) }

def finalizePendingForSender (s : StableState W) (sender : Address) (id : TxId) (bump : Bool) :
    StableState W :=
  let s :=
    if s.pendingCurrentBySender.get sender = some id then
      { s with pendingCurrentBySender := s.pendingCurrentBySender.remove sender }
    else s
  if bump then bumpExpectedNonce evm s sender else s

def nextPendingForSender (s : StableState W) (sender : Address) (afterNonce : Nat) :
    Option (Nat × TxId) :=
  match (s.pendingBySenderNonce.rangeFrom ⟨sender, saturatingAdd u64Max afterNonce 1⟩).head? with
  | none => none
  | some (key, id) => if key.sender ≠ sender then none else some (key.nonce, id)

inductive FeeLookup where
  | fields (maxFeePerGas maxPriorityFeePerGas : Nat) (isDynamicFee : Bool) (seq : Nat)
  | missing
  | decodeFailed
deriving DecidableEq, Repr

def loadFeeFieldsAndSeq (s : StableState W) (id : TxId) : FeeLookup :=
  match storedTx c s id with
  | none => .missing
  | some (.error _) => .decodeFailed
  | some (.ok stored) =>
      match txLocsGet s id with
      | some loc =>
          .fields stored.maxFeePerGas stored.maxPriorityFeePerGas stored.isDynamicFee loc.seq
      | none => .missing

def pendingKeyOf (s : StableState W) (id : TxId) (senderOverride : Option Address)
    (nonceOverride : Option Nat) : Option SenderNonceKey :=
  match s.pendingMetaByTxId.get id with
  | some key => some key
  | none =>
      match senderOverride, nonceOverride with
      | some sender, some nonce => some ⟨sender, nonce⟩
      | _, _ => none

def unlinkPending (s : StableState W) (id : TxId) (key : SenderNonceKey) (bump : Bool) :
    StableState W :=
  let s := { s with
    pendingMetaByTxId := s.pendingMetaByTxId.remove id
    pendingBySenderNonce := s.pendingBySenderNonce.remove key }
  let s := removePendingFeeIndexByTxId s id
  let s := decrementPrincipalPendingCountForTx c s id
  finalizePendingForSender evm s key.sender id bump

mutual

def advanceSenderAfterTx : Nat → StableState W → TxId → Option Address → Option Nat → Bool →
    StableState W
  | 0, s, _, _, _, _ => s
  | fuel + 1, s, id, senderOverride, nonceOverride, bump =>
      let s := removeReadyByTxId s id
      match pendingKeyOf s id senderOverride nonceOverride with
      | none => s
      | some key =>
          let s := unlinkPending c evm s id key bump
          if s.pendingMinNonce.get key.sender = some key.nonce then
            promoteNextPending fuel s key.sender key.nonce
          else s

def promoteNextPending : Nat → StableState W → Address → Nat → StableState W
  | 0, s, _, _ => s
  | fuel + 1, s, sender, cursorNonce =>
      match nextPendingForSender s sender cursorNonce with
      | none => { s with pendingMinNonce := s.pendingMinNonce.remove sender }
      | some (nextNonce, nextId) =>
          let s := { s with pendingMinNonce := s.pendingMinNonce.insert sender nextNonce }
          match loadFeeFieldsAndSeq c s nextId with
          | .fields maxFee maxPriority isDynamicFee seq =>
              insertReady s nextId maxFee maxPriority isDynamicFee seq
          | .missing =>
              let s := advanceSenderAfterTx fuel s nextId none none false
              promoteNextPending fuel (markDroppedAndPurgePayload c s nextId .invalidFee) sender
                nextNonce
          | .decodeFailed =>
              let s := advanceSenderAfterTx fuel s nextId none none false
              promoteNextPending fuel (markDroppedAndPurgePayload c s nextId .decode) sender
                nextNonce

end

def advanceFuel (s : StableState W) : Nat := 2 * s.pendingBySenderNonce.len + 2

def advanceSender (s : StableState W) (id : TxId) (senderOverride : Option Address)
    (nonceOverride : Option Nat) (bump : Bool) : StableState W :=
  advanceSenderAfterTx c evm (advanceFuel s) s id senderOverride nonceOverride bump

def dropPending (s : StableState W) (id : TxId) (code : DropCode) (senderOverride : Option Address)
    (nonceOverride : Option Nat) : StableState W :=
  markDroppedAndPurgePayload c (advanceSender c evm s id senderOverride nonceOverride false) id code

def replacePendingForSender (s : StableState W) (sender : Address) (old : TxId) : StableState W :=
  let s := removeReadyByTxId s old
  let s := removePendingFeeIndexByTxId s old
  let s := decrementPrincipalPendingCountForTx c s old
  let s :=
    match s.pendingMetaByTxId.get old with
    | none => s
    | some key =>
        { s with
          pendingMetaByTxId := s.pendingMetaByTxId.remove old
          pendingBySenderNonce := s.pendingBySenderNonce.remove key }
  let s := { s with
    pendingMinNonce := s.pendingMinNonce.remove sender
    pendingCurrentBySender := s.pendingCurrentBySender.remove sender }
  markDroppedAndPurgePayload c s old .replaced

def trackPendingIndexesOnInsert (s : StableState W) (id : TxId) (callerPrincipal : Principal)
    (price : Nat) : StableState W :=
  let key := CallerKey.fromPrincipalBytes callerPrincipal
  let current := (s.principalPendingCount.get key).getD 0
  { s with
    principalPendingCount := s.principalPendingCount.insert key (saturatingAdd u32Max current 1)
    pendingFeeIndex := s.pendingFeeIndex.insert ⟨price, id⟩ id
    pendingFeeKeyByTxId := s.pendingFeeKeyByTxId.insert id ⟨price, id⟩ }

def indexPendingFee (baseFee : Nat) (s : StableState W) (id : TxId) : StableState W :=
  match storedTx c s id with
  | some (.ok stored) =>
      let key : PendingFeeKey := ⟨(stored.effectiveGasPrice baseFee).getD 0, id⟩
      { s with
        pendingFeeIndex := s.pendingFeeIndex.insert key id
        pendingFeeKeyByTxId := s.pendingFeeKeyByTxId.insert id key }
  | _ => s

def rebuildPendingFeeIndexForBaseFee (s : StableState W) (baseFee : Nat) : StableState W :=
  s.pendingBySenderNonce.values.foldl (indexPendingFee c baseFee)
    { s with pendingFeeIndex := .empty, pendingFeeKeyByTxId := .empty }

def recountPending (s : StableState W) (id : TxId) : StableState W :=
  match storedTx c s id with
  | none => s
  | some (.error _) => dropPending c evm s id .decode none none
  | some (.ok stored) =>
      if (s.pendingMetaByTxId.get id).isSome then
        let key := CallerKey.fromPrincipalBytes stored.callerPrincipal
        let count := (s.principalPendingCount.get key).getD 0
        { s with
          principalPendingCount := s.principalPendingCount.insert key (saturatingAdd u32Max count 1) }
      else s

def indexReadySeq (s : StableState W) (entry : TxId × ReadyKey) : StableState W :=
  { s with readyBySeq := s.readyBySeq.insert ⟨entry.2.seq, entry.1⟩ entry.1 }

def rebuildPendingRuntimeIndexes (s : StableState W) : StableState W :=
  let s := { s with principalPendingCount := .empty, readyBySeq := .empty }
  let s := s.pendingBySenderNonce.values.foldl (recountPending c evm) s
  let s := rebuildPendingFeeIndexForBaseFee c s s.chainState.baseFee
  s.readyKeyByTxId.entries.foldl indexReadySeq s

end Kasane.Chain
