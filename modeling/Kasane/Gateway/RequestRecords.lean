import Kasane.Gateway.RequestCodec

namespace Kasane.Gateway

open BigEndian Codec Word Chain
open Precompile (isAscii)

def UnwrapRequestStatus.toU8 : UnwrapRequestStatus → UInt8
  | .queued => 0
  | .dispatching => 1
  | .dispatched => 2
  | .dispatchFailed => 3

def UnwrapRequestStatus.fromU8 (value : UInt8) : Option UnwrapRequestStatus :=
  if value = 0 then some .queued
  else if value = 1 then some .dispatching
  else if value = 2 then some .dispatched
  else if value = 3 then some .dispatchFailed
  else none

def IcpUpdateRequestStatus.toU8 : IcpUpdateRequestStatus → UInt8
  | .queued => 0
  | .dispatching => 1
  | .dispatched => 2
  | .dispatchFailed => 3
  | .dispatchUncertain => 4

def IcpUpdateRequestStatus.fromU8 (value : UInt8) : Option IcpUpdateRequestStatus :=
  if value = 0 then some .queued
  else if value = 1 then some .dispatching
  else if value = 2 then some .dispatched
  else if value = 3 then some .dispatchFailed
  else if value = 4 then some .dispatchUncertain
  else none

theorem UnwrapRequestStatus.fromU8_toU8 (status : UnwrapRequestStatus) :
    fromU8 status.toU8 = some status := by
  cases status <;> rfl

theorem IcpUpdateRequestStatus.fromU8_toU8 (status : IcpUpdateRequestStatus) :
    fromU8 status.toU8 = some status := by
  cases status <;> rfl

def maxErrorLen : Nat := 192

theorem any_eq_false_iff {α : Type} {value : Option α} {len : α → Nat} {max : Nat} :
    value.any (fun v => decide (len v > max)) = false ↔ ∀ v, value = some v → len v ≤ max := by
  cases value with
  | none => simp
  | some v => simp

theorem errorBytes_le {errorCode : Option String}
    (h : ∀ v, errorCode = some v → v.utf8ByteSize ≤ maxErrorLen) :
    ∀ bytes, errorCode.map textBytes = some bytes → bytes.length ≤ maxErrorLen := by
  intro bytes hbytes
  obtain ⟨text, htext, rfl⟩ := Option.map_eq_some_iff.mp hbytes
  exact h text htext

theorem length_optionBytes_le {value : Option Bytes} {maxLen : Nat}
    (h : ∀ v, value = some v → v.length ≤ maxLen) : (optionBytes value).length ≤ maxLen + 3 := by
  cases value with
  | none => simp [optionBytes]
  | some v =>
      have hv := h v rfl
      simp only [optionBytes, List.length_cons, List.length_append, length_u16Bytes]
      omega

-- the request as the stable map holds it, in the field types of the source
structure UnwrapRecord where
  assetId : Bytes
  amount : ByteArr 32
  recipient : Bytes
  status : UnwrapRequestStatus
  ledgerTxId : Option Bytes
  errorCode : Option String
  updatedAt : UInt64
  transferCreatedAtTime : UInt64
deriving DecidableEq

namespace UnwrapRecord

def maxBlobLen : Nat := 256

def maxLedgerTxIdLen : Nat := 128

def maxEncodedLen : Nat := 1088

def decodeFailurePlaceholder : UnwrapRecord where
  assetId := [0]
  amount := zeroArr 32
  recipient := [0]
  status := .dispatchFailed
  ledgerTxId := none
  errorCode := some unwrapDecodeFailureCode
  updatedAt := 0
  transferCreatedAtTime := 0

def fields (r : UnwrapRecord) : Option Bytes := do
  let assetId ← writeBytes r.assetId
  let recipient ← writeBytes r.recipient
  let ledgerTxId ← writeOption r.ledgerTxId
  let errorCode ← writeOption (r.errorCode.map textBytes)
  pure (2 :: (assetId ++ (r.amount.toList ++ (recipient ++ (r.status.toU8 :: (ledgerTxId ++
    (errorCode ++ (u64Bytes r.updatedAt ++ u64Bytes r.transferCreatedAtTime))))))))

def encodeChecked (r : UnwrapRecord) : Option Bytes :=
  if r.assetId = [] ∨ r.assetId.length > maxBlobLen ∨ r.recipient = [] ∨
    r.recipient.length > maxBlobLen then none
  else if r.ledgerTxId.any (fun v => decide (v.length > maxLedgerTxIdLen)) then none
  else if r.errorCode.any (fun v => decide (v.utf8ByteSize > maxErrorLen)) then none
  else r.fields.map sealed

def decodeChecked (data : Bytes) : Option UnwrapRecord := do
  let (version, rest) ← readU8 data
  if version ≠ 1 ∧ version ≠ 2 then none
  else
    let (assetId, rest) ← readBytes maxBlobLen true rest
    let (amount, rest) ← readArray 32 rest
    let (recipient, rest) ← readBytes maxBlobLen true rest
    let (statusRaw, rest) ← readU8 rest
    let status ← UnwrapRequestStatus.fromU8 statusRaw
    let (ledgerTxId, rest) ← readOption (readBytes maxLedgerTxIdLen true) rest
    let (errorCode, rest) ← readOption (readString maxErrorLen) rest
    let (updatedAt, rest) ← readU64 rest
    let (transferCreatedAtTime, rest) ← if version = 2 then readU64 rest else some (0, rest)
    if checksumMatches data rest then
      pure ⟨assetId, amount, recipient, status, ledgerTxId, errorCode, updatedAt,
        transferCreatedAtTime⟩
    else none

-- none where the source panics
def toBytes (r : UnwrapRecord) : Option Bytes :=
  r.encodeChecked.bind (fun bytes => (encodeGuarded bytes maxEncodedLen).toOption)

def fromBytes (data : Bytes) : UnwrapRecord := (decodeChecked data).getD decodeFailurePlaceholder

def reloaded (r : UnwrapRecord) : Option UnwrapRecord := r.toBytes.map fromBytes

structure Accepted (r : UnwrapRecord) : Prop where
  assetId : r.assetId ≠ []
  assetIdLen : r.assetId.length ≤ maxBlobLen
  recipient : r.recipient ≠ []
  recipientLen : r.recipient.length ≤ maxBlobLen
  ledgerTxId : ∀ v, r.ledgerTxId = some v → v.length ≤ maxLedgerTxIdLen
  errorCode : ∀ v, r.errorCode = some v → v.utf8ByteSize ≤ maxErrorLen

def body (r : UnwrapRecord) : Bytes :=
  2 :: (u16Bytes (.ofNat r.assetId.length) ++ (r.assetId ++ (r.amount.toList ++
    (u16Bytes (.ofNat r.recipient.length) ++ (r.recipient ++ (r.status.toU8 ::
      (optionBytes r.ledgerTxId ++ (optionBytes (r.errorCode.map textBytes) ++
        (u64Bytes r.updatedAt ++ u64Bytes r.transferCreatedAtTime)))))))))

theorem Accepted.fields {r : UnwrapRecord} (h : r.Accepted) : r.fields = some r.body := by
  rw [UnwrapRecord.fields, writeBytes_of_le h.assetIdLen (by decide),
    writeBytes_of_le h.recipientLen (by decide), writeOption_of_le h.ledgerTxId (by decide),
    writeOption_of_le (errorBytes_le h.errorCode) (by decide)]
  simp only [Option.bind_eq_bind, Option.bind_some, body, List.append_assoc]
  rfl

theorem Accepted.encodeChecked {r : UnwrapRecord} (h : r.Accepted) :
    r.encodeChecked = some (sealed r.body) := by
  have hledger := any_eq_false_iff.mpr h.ledgerTxId
  have herror := any_eq_false_iff.mpr h.errorCode
  have hblobs : ¬ (r.assetId = [] ∨ r.assetId.length > maxBlobLen ∨ r.recipient = [] ∨
      r.recipient.length > maxBlobLen) := by
    rintro (hempty | hlong | hempty | hlong)
    · exact h.assetId hempty
    · exact absurd h.assetIdLen (not_le.mpr hlong)
    · exact h.recipient hempty
    · exact absurd h.recipientLen (not_le.mpr hlong)
  rw [UnwrapRecord.encodeChecked, if_neg hblobs, hledger, herror, h.fields]
  rfl

theorem accepted_of_encodeChecked {r : UnwrapRecord} (h : r.encodeChecked.isSome) :
    r.Accepted := by
  rw [UnwrapRecord.encodeChecked] at h
  split_ifs at h with hblobs hledger herror
  · cases h
  · cases h
  · cases h
  · simp only [not_or, not_lt] at hblobs
    exact ⟨hblobs.1, hblobs.2.1, hblobs.2.2.1, hblobs.2.2.2,
      any_eq_false_iff.mp (Bool.eq_false_of_not_eq_true hledger),
      any_eq_false_iff.mp (Bool.eq_false_of_not_eq_true herror)⟩

theorem Accepted.toBytes {r : UnwrapRecord} (h : r.Accepted) :
    r.toBytes = some (sealed r.body) := by
  have hledger := length_optionBytes_le h.ledgerTxId
  have herror := length_optionBytes_le (errorBytes_le h.errorCode)
  have hasset := h.assetIdLen
  have hrecipient := h.recipientLen
  have hfits : ¬ (sealed r.body).length > maxEncodedLen := by
    simp only [sealed, body, List.length_append, List.length_cons, length_u16Bytes,
      length_u32Bytes, length_u64Bytes, List.Vector.toList_length]
    simp only [maxBlobLen, maxLedgerTxIdLen, maxErrorLen, maxEncodedLen] at *
    omega
  rw [UnwrapRecord.toBytes, h.encodeChecked, Option.bind_some, encodeGuarded, if_neg hfits]
  rfl

theorem Accepted.decodeChecked {r : UnwrapRecord} (h : r.Accepted) :
    UnwrapRecord.decodeChecked (sealed r.body) =
      if r.ledgerTxId = some [] ∨ r.errorCode = some "" then none else some r := by
  have hversion : ¬ ((2 : UInt8) ≠ 1 ∧ (2 : UInt8) ≠ 2) := by decide
  have hbytes : sealed r.body = 2 :: (u16Bytes (.ofNat r.assetId.length) ++ (r.assetId ++
      (r.amount.toList ++ (u16Bytes (.ofNat r.recipient.length) ++ (r.recipient ++
        (r.status.toU8 :: (optionBytes r.ledgerTxId ++
          (optionBytes (r.errorCode.map textBytes) ++ (u64Bytes r.updatedAt ++
            (u64Bytes r.transferCreatedAtTime ++ u32Bytes (crc32Ieee r.body))))))))))) := by
    simp only [sealed, body, List.cons_append, List.append_assoc]
  have hsum := checksumMatches_sealed r.body
  rw [UnwrapRecord.decodeChecked, bind_of_read (by rw [hbytes]; exact readU8_cons _ _)]
  simp only [hversion, if_false, ↓bind_of_read
      ((readBytes_append h.assetIdLen (by decide) true _).trans
        (if_neg (fun hempty => h.assetId hempty.2))),
    ↓bind_of_read (readArray_append _ _), ↓bind_of_read
      ((readBytes_append h.recipientLen (by decide) true _).trans
        (if_neg (fun hempty => h.recipient hempty.2))),
    ↓bind_of_read (readU8_cons _ _), UnwrapRequestStatus.fromU8_toU8, Option.bind_eq_bind,
    Option.bind_some, readOption_bytes h.ledgerTxId (by decide), true_and]
  by_cases hledger : r.ledgerTxId = some []
  · rw [if_pos hledger, if_pos (Or.inl hledger)]
    rfl
  · rw [if_neg hledger, Option.bind_some]
    simp only [readOption_text h.errorCode (by decide)]
    by_cases herror : r.errorCode = some ""
    · rw [if_pos herror, if_pos (Or.inr herror)]
      rfl
    · rw [if_neg herror, if_neg (not_or.mpr ⟨hledger, herror⟩)]
      simp only [Option.bind_some, readU64_append, if_true, hsum]
      rfl

theorem reloaded_iff {r : UnwrapRecord} (h : r.encodeChecked.isSome) :
    r.reloaded = some r ↔ r.ledgerTxId ≠ some [] ∧ r.errorCode ≠ some "" := by
  have haccepted := accepted_of_encodeChecked h
  rw [reloaded, haccepted.toBytes, Option.map_some, fromBytes, haccepted.decodeChecked,
    Option.some.injEq]
  by_cases hempty : r.ledgerTxId = some [] ∨ r.errorCode = some ""
  · rw [if_pos hempty, Option.getD_none]
    constructor
    · rintro rfl
      rcases hempty with hledger | herror
      · cases hledger
      · exact absurd herror (by decide)
    · intro hfull
      exact absurd hempty (not_or.mpr hfull)
  · rw [if_neg hempty, Option.getD_some]
    exact ⟨fun _ => not_or.mp hempty, fun _ => rfl⟩

end UnwrapRecord

structure IcpUpdateRecord where
  requestId : TxId
  txId : TxId
  blockNumber : UInt64
  txIndex : UInt32
  logIndex : UInt32
  txKind : TxKind
  evmSender : Address
  icCaller : Option Bytes
  target : Bytes
  method : Bytes
  arg : Bytes
  status : IcpUpdateRequestStatus
  reply : Option Bytes
  errorCode : Option String
  updatedAt : UInt64
  callStartedAtTime : UInt64
deriving DecidableEq

namespace IcpUpdateRecord

def maxTargetLen : Nat := 29

def maxMethodLen : Nat := 64

def maxArgLen : Nat := 3997

def maxEncodedLen : Nat := 38656

def decodeFailurePlaceholder : IcpUpdateRecord where
  requestId := zeroArr 32
  txId := zeroArr 32
  blockNumber := 0
  txIndex := 0
  logIndex := 0
  txKind := .ethSigned
  evmSender := zeroArr 20
  icCaller := none
  target := [0]
  method := textBytes "decode_failure"
  arg := []
  status := .dispatchFailed
  reply := none
  errorCode := some icpUpdateDecodeFailureCode
  updatedAt := 0
  callStartedAtTime := 0

def fields (r : IcpUpdateRecord) : Option Bytes := do
  let icCaller ← writeOption r.icCaller
  let target ← writeBytes r.target
  let method ← writeBytes r.method
  let arg ← writeBytes r.arg
  let reply ← writeOption r.reply
  let errorCode ← writeOption (r.errorCode.map textBytes)
  pure (2 :: (r.requestId.toList ++ (r.txId.toList ++ (u64Bytes r.blockNumber ++
    (u32Bytes r.txIndex ++ (u32Bytes r.logIndex ++ (r.txKind.toU8 :: (r.evmSender.toList ++
      (icCaller ++ (target ++ (method ++ (arg ++ (r.status.toU8 :: (reply ++ (errorCode ++
        (u64Bytes r.updatedAt ++ u64Bytes r.callStartedAtTime))))))))))))))))

def encodeChecked (r : IcpUpdateRecord) : Option Bytes :=
  if r.target = [] ∨ r.target.length > maxTargetLen ∨ r.method = [] ∨
    r.method.length > maxMethodLen ∨ isAscii r.method = false ∨ r.arg.length > maxArgLen then none
  else if r.icCaller.any (fun v => decide (v = [] ∨ v.length > maxTargetLen)) then none
  else if r.reply.any (fun v => decide (v.length > Receipt.maxReturnData)) then none
  else if r.errorCode.any (fun v => decide (v.utf8ByteSize > maxErrorLen)) then none
  else r.fields.map sealed

-- the method is kept as its bytes: ASCII bytes are a text, so from_utf8 never fails on them
def decodeChecked (data : Bytes) : Option IcpUpdateRecord := do
  let (version, rest) ← readU8 data
  if version ≠ 2 then none
  else
    let (requestId, rest) ← readArray 32 rest
    let (txId, rest) ← readArray 32 rest
    let (blockNumber, rest) ← readU64 rest
    let (txIndex, rest) ← readU32 rest
    let (logIndex, rest) ← readU32 rest
    let (txKindRaw, rest) ← readU8 rest
    let txKind ← TxKind.fromU8 txKindRaw
    let (evmSender, rest) ← readArray 20 rest
    let (icCaller, rest) ← readOption (readBytes maxTargetLen true) rest
    let (target, rest) ← readBytes maxTargetLen true rest
    let (method, rest) ← readBytes maxMethodLen true rest
    if isAscii method = false then none
    else
      let (arg, rest) ← readBytes maxArgLen false rest
      let (statusRaw, rest) ← readU8 rest
      let status ← IcpUpdateRequestStatus.fromU8 statusRaw
      let (reply, rest) ← readOption (readBytes Receipt.maxReturnData false) rest
      let (errorCode, rest) ← readOption (readString maxErrorLen) rest
      let (updatedAt, rest) ← readU64 rest
      let (callStartedAtTime, rest) ← readU64 rest
      if checksumMatches data rest then
        pure ⟨requestId, txId, blockNumber, txIndex, logIndex, txKind, evmSender, icCaller, target,
          method, arg, status, reply, errorCode, updatedAt, callStartedAtTime⟩
      else none

def toBytes (r : IcpUpdateRecord) : Option Bytes :=
  r.encodeChecked.bind (fun bytes => (encodeGuarded bytes maxEncodedLen).toOption)

def fromBytes (data : Bytes) : IcpUpdateRecord :=
  (decodeChecked data).getD decodeFailurePlaceholder

def reloaded (r : IcpUpdateRecord) : Option IcpUpdateRecord := r.toBytes.map fromBytes

structure Accepted (r : IcpUpdateRecord) : Prop where
  target : r.target ≠ []
  targetLen : r.target.length ≤ maxTargetLen
  method : r.method ≠ []
  methodLen : r.method.length ≤ maxMethodLen
  ascii : isAscii r.method = true
  argLen : r.arg.length ≤ maxArgLen
  icCaller : ∀ v, r.icCaller = some v → v ≠ [] ∧ v.length ≤ maxTargetLen
  reply : ∀ v, r.reply = some v → v.length ≤ Receipt.maxReturnData
  errorCode : ∀ v, r.errorCode = some v → v.utf8ByteSize ≤ maxErrorLen

def body (r : IcpUpdateRecord) : Bytes :=
  2 :: (r.requestId.toList ++ (r.txId.toList ++ (u64Bytes r.blockNumber ++
    (u32Bytes r.txIndex ++ (u32Bytes r.logIndex ++ (r.txKind.toU8 :: (r.evmSender.toList ++
      (optionBytes r.icCaller ++ (u16Bytes (.ofNat r.target.length) ++ (r.target ++
        (u16Bytes (.ofNat r.method.length) ++ (r.method ++ (u16Bytes (.ofNat r.arg.length) ++
          (r.arg ++ (r.status.toU8 :: (optionBytes r.reply ++
            (optionBytes (r.errorCode.map textBytes) ++
              (u64Bytes r.updatedAt ++ u64Bytes r.callStartedAtTime))))))))))))))))))

theorem Accepted.icCallerLen {r : IcpUpdateRecord} (h : r.Accepted) :
    ∀ v, r.icCaller = some v → v.length ≤ maxTargetLen :=
  fun v hv => (h.icCaller v hv).2

theorem Accepted.icCallerNamed {r : IcpUpdateRecord} (h : r.Accepted) : r.icCaller ≠ some [] :=
  fun hempty => (h.icCaller [] hempty).1 rfl

theorem Accepted.fields {r : IcpUpdateRecord} (h : r.Accepted) : r.fields = some r.body := by
  rw [IcpUpdateRecord.fields, writeOption_of_le h.icCallerLen (by decide),
    writeBytes_of_le h.targetLen (by decide), writeBytes_of_le h.methodLen (by decide),
    writeBytes_of_le h.argLen (by decide), writeOption_of_le h.reply (by decide),
    writeOption_of_le (errorBytes_le h.errorCode) (by decide)]
  simp only [Option.bind_eq_bind, Option.bind_some, body, List.append_assoc]
  rfl

theorem callerAny_eq_false_iff {value : Option Bytes} :
    value.any (fun v => decide (v = [] ∨ v.length > maxTargetLen)) = false ↔
      ∀ v, value = some v → v ≠ [] ∧ v.length ≤ maxTargetLen := by
  cases value with
  | none => simp
  | some v => simp

theorem Accepted.encodeChecked {r : IcpUpdateRecord} (h : r.Accepted) :
    r.encodeChecked = some (sealed r.body) := by
  have hcaller := callerAny_eq_false_iff.mpr h.icCaller
  have hreply := any_eq_false_iff.mpr h.reply
  have herror := any_eq_false_iff.mpr h.errorCode
  have hblobs : ¬ (r.target = [] ∨ r.target.length > maxTargetLen ∨ r.method = [] ∨
      r.method.length > maxMethodLen ∨ isAscii r.method = false ∨ r.arg.length > maxArgLen) := by
    rintro (hempty | hlong | hempty | hlong | hascii | hlong)
    · exact h.target hempty
    · exact absurd h.targetLen (not_le.mpr hlong)
    · exact h.method hempty
    · exact absurd h.methodLen (not_le.mpr hlong)
    · exact absurd (hascii.symm.trans h.ascii) (by decide)
    · exact absurd h.argLen (not_le.mpr hlong)
  rw [IcpUpdateRecord.encodeChecked, if_neg hblobs, hcaller, hreply, herror, h.fields]
  rfl

theorem accepted_of_encodeChecked {r : IcpUpdateRecord} (h : r.encodeChecked.isSome) :
    r.Accepted := by
  rw [IcpUpdateRecord.encodeChecked] at h
  split_ifs at h with hblobs hcaller hreply herror
  · cases h
  · cases h
  · cases h
  · cases h
  · simp only [not_or, not_lt, Bool.not_eq_false] at hblobs
    obtain ⟨htarget, htargetLen, hmethod, hmethodLen, hascii, hargLen⟩ := hblobs
    exact ⟨htarget, htargetLen, hmethod, hmethodLen, hascii, hargLen,
      callerAny_eq_false_iff.mp (Bool.eq_false_of_not_eq_true hcaller),
      any_eq_false_iff.mp (Bool.eq_false_of_not_eq_true hreply),
      any_eq_false_iff.mp (Bool.eq_false_of_not_eq_true herror)⟩

theorem Accepted.toBytes {r : IcpUpdateRecord} (h : r.Accepted) :
    r.toBytes = some (sealed r.body) := by
  have hcaller := length_optionBytes_le h.icCallerLen
  have hreply := length_optionBytes_le h.reply
  have herror := length_optionBytes_le (errorBytes_le h.errorCode)
  have htarget := h.targetLen
  have hmethod := h.methodLen
  have harg := h.argLen
  have hfits : ¬ (sealed r.body).length > maxEncodedLen := by
    simp only [sealed, body, List.length_append, List.length_cons, length_u16Bytes,
      length_u32Bytes, length_u64Bytes, List.Vector.toList_length]
    simp only [maxTargetLen, maxMethodLen, maxArgLen, Receipt.maxReturnData, maxErrorLen,
      maxEncodedLen] at *
    omega
  rw [IcpUpdateRecord.toBytes, h.encodeChecked, Option.bind_some, encodeGuarded, if_neg hfits]
  rfl

theorem Accepted.decodeChecked {r : IcpUpdateRecord} (h : r.Accepted) :
    IcpUpdateRecord.decodeChecked (sealed r.body) =
      if r.errorCode = some "" then none else some r := by
  have hversion : ¬ (2 : UInt8) ≠ 2 := by decide
  have hascii : ¬ isAscii r.method = false := by rw [h.ascii]; decide
  have hempty {value : Option Bytes} : ¬ (false = true ∧ value = some []) := by simp
  have hbytes : sealed r.body = 2 :: (r.requestId.toList ++ (r.txId.toList ++
      (u64Bytes r.blockNumber ++ (u32Bytes r.txIndex ++ (u32Bytes r.logIndex ++
        (r.txKind.toU8 :: (r.evmSender.toList ++ (optionBytes r.icCaller ++
          (u16Bytes (.ofNat r.target.length) ++ (r.target ++ (u16Bytes (.ofNat r.method.length) ++
            (r.method ++ (u16Bytes (.ofNat r.arg.length) ++ (r.arg ++ (r.status.toU8 ::
              (optionBytes r.reply ++ (optionBytes (r.errorCode.map textBytes) ++
                (u64Bytes r.updatedAt ++ (u64Bytes r.callStartedAtTime ++
                  u32Bytes (crc32Ieee r.body)))))))))))))))))))) := by
    simp only [sealed, body, List.cons_append, List.append_assoc]
  have hsum := checksumMatches_sealed r.body
  rw [IcpUpdateRecord.decodeChecked, bind_of_read (by rw [hbytes]; exact readU8_cons _ _)]
  simp only [hversion, if_false, ↓bind_of_read (readArray_append _ _),
    ↓bind_of_read (readU64_append _ _), ↓bind_of_read (readU32_append _ _),
    ↓bind_of_read (readU8_cons _ _), fromU8_toU8, Option.bind_eq_bind, Option.bind_some,
    ↓bind_of_read ((readOption_bytes h.icCallerLen (by decide) true _).trans
      (if_neg (fun hnone => h.icCallerNamed hnone.2))),
    ↓bind_of_read ((readBytes_append h.targetLen (by decide) true _).trans
      (if_neg (fun hnone => h.target hnone.2))),
    ↓bind_of_read ((readBytes_append h.methodLen (by decide) true _).trans
      (if_neg (fun hnone => h.method hnone.2))), hascii,
    ↓bind_of_read ((readBytes_append h.argLen (by decide) false _).trans
      (if_neg (fun hnone => Bool.false_ne_true hnone.1))), IcpUpdateRequestStatus.fromU8_toU8,
    ↓bind_of_read ((readOption_bytes h.reply (by decide) false _).trans (if_neg hempty)),
    readOption_text h.errorCode (by decide)]
  by_cases herror : r.errorCode = some ""
  · rw [if_pos herror, if_pos herror]
    rfl
  · rw [if_neg herror, if_neg herror]
    simp only [Option.bind_some, readU64_append, if_true, hsum]
    rfl

theorem reloaded_iff {r : IcpUpdateRecord} (h : r.encodeChecked.isSome) :
    r.reloaded = some r ↔ r.errorCode ≠ some "" := by
  have haccepted := accepted_of_encodeChecked h
  rw [reloaded, haccepted.toBytes, Option.map_some, fromBytes, haccepted.decodeChecked,
    Option.some.injEq]
  by_cases hempty : r.errorCode = some ""
  · rw [if_pos hempty, Option.getD_none]
    constructor
    · rintro rfl
      exact absurd hempty (by decide)
    · intro hfull
      exact absurd hempty hfull
  · rw [if_neg hempty, Option.getD_some]
    exact ⟨fun _ => hempty, fun _ => rfl⟩

end IcpUpdateRecord

end Kasane.Gateway
