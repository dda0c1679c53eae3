import Kasane.Exec.TraceRecords
import Kasane.Export.TraceCodec
import Kasane.Indexer.DecodeReceipt
import Kasane.Indexer.StoredBlocks
import Kasane.Lib.ByteOrder

namespace Kasane.Indexer

open BigEndian Codec Chain Export

structure TxIndexInfo where
  txHash : Bytes
  ethTxHash : Option Bytes
  blockNumber : Nat
  txIndex : Nat
  callerPrincipal : Option Bytes
  fromAddress : Bytes
  toAddress : Option Bytes
  txSelector : Option Bytes
deriving DecidableEq

-- the code of the error that a read past the end of a buffer throws
def outOfRange : String := "ERR_OUT_OF_RANGE"

def readU8BE : Scan Nat := readU8Safe outOfRange

def readU16BE : Scan Nat := fun data =>
  if data.length < 2 then .error outOfRange else .ok (decode (data.take 2), data.drop 2)

def readU32BE : Scan Nat := readU32Safe outOfRange

def readU64BE : Scan Nat := readU64Safe outOfRange

def readTxIndexHash (len minLen : Nat) (info : TxIndexInfo) : Scan TxIndexInfo := fun data => do
  let (selectorLen, data) ← readU8BE data
  if selectorLen ≠ 0 ∧ selectorLen ≠ 4 then
    .error "tx_index entry size mismatch: selector_len must be 0 or 4"
  else if len - minLen < 1 + selectorLen + 1 then
    .error "tx_index entry size mismatch: selector/eth hash length mismatch"
  else if data.length < selectorLen then
    .error "tx_index entry size mismatch: selector bytes missing"
  else
    let txSelector := if selectorLen > 0 then some (data.take selectorLen) else none
    let data := data.drop selectorLen
    if data.length < 1 then .error "tx_index entry size mismatch: missing eth_hash_len"
    else do
      let (ethHashLen, data) ← readU8BE data
      if ethHashLen ≠ 0 ∧ ethHashLen ≠ 32 then
        .error "tx_index entry size mismatch: eth_hash_len must be 0 or 32"
      else if len - minLen ≠ 1 + selectorLen + 1 + ethHashLen then
        .error "tx_index entry size mismatch: entry_len does not match eth_hash_len"
      else if data.length < ethHashLen then
        .error "tx_index entry size mismatch: eth hash bytes missing"
      else
        pure ({ info with
          txSelector := txSelector
          ethTxHash := if ethHashLen = 0 then none else some (data.take ethHashLen) },
          data.drop ethHashLen)

def readTxIndexEntry : Scan TxIndexInfo := fun data =>
  if data.length < 32 + 4 then .error "tx_index payload truncated"
  else do
    let txHash := data.take 32
    let (len, data) ← readU32BE (data.drop 32)
    if data.length < len then .error "tx_index payload length mismatch"
    else if len < 35 then
      .error "tx_index entry size mismatch: entry must include 35+ bytes (u64 + u32 + principal_len + from + to_len)"
    else do
      let (blockNumber, data) ← readU64BE data
      let (txIndex, data) ← readU32BE data
      let (principalLen, data) ← readU16BE data
      if data.length < principalLen + 20 + 1 then
        .error "tx_index entry size mismatch: missing from/to fields"
      else if len < 12 + 2 + principalLen + 20 + 1 then
        .error "tx_index entry size mismatch: entry_len is smaller than required fields"
      else do
        let callerPrincipal := if principalLen > 0 then some (data.take principalLen) else none
        let data := data.drop principalLen
        let fromAddress := data.take 20
        let (toLen, data) ← readU8BE (data.drop 20)
        if toLen ≠ 0 ∧ toLen ≠ 20 then
          .error "tx_index entry size mismatch: to_len must be 0 or 20"
        else if len < 12 + 2 + principalLen + 20 + 1 + toLen + 1 then
          .error "tx_index entry size mismatch: entry_len does not match to_len"
        else if data.length < toLen then
          .error "tx_index entry size mismatch: to address bytes missing"
        else
          let toAddress := if toLen = 0 then none else some (data.take toLen)
          readTxIndexHash len (12 + 2 + principalLen + 20 + 1 + toLen)
            ⟨txHash, none, blockNumber, txIndex, callerPrincipal, fromAddress, toAddress, none⟩
            (data.drop toLen)

def decodeTxIndexLoop : Nat → List TxIndexInfo → Bytes → Except String (List TxIndexInfo)
  | 0, out, _ => .ok out
  | fuel + 1, out, data =>
      if data.length = 0 then .ok out
      else do
        let (info, data) ← readTxIndexEntry data
        decodeTxIndexLoop fuel (out ++ [info]) data

def decodeTxIndexPayload (payload : Bytes) : Except String (List TxIndexInfo) :=
  decodeTxIndexLoop payload.length [] payload

def someUnlessNil (bytes : Bytes) : Option Bytes := if bytes = [] then none else some bytes

def txIndexView (c : Crypto) (id : TxId) (entry : TxIndexEntry) (stored : StoredTx)
    (decoded : DecodedTxView) : TxIndexInfo where
  txHash := id.toList
  ethTxHash := if stored.kind = .ethSigned then some (c.keccak256 stored.raw).toList else none
  blockNumber := entry.blockNumber.toNat
  txIndex := entry.txIndex.toNat
  callerPrincipal := someUnlessNil stored.callerPrincipal.bytes
  fromAddress := decoded.sender.toList
  toAddress := decoded.dest.map List.Vector.toList
  txSelector := if decoded.input.length ≥ 4 then some (decoded.input.take 4) else none

def exportedTx {W : Type} (c : Crypto) (s : StableState W) (id : TxId) : Option TxIndexInfo := do
  let ptr ← s.txIndex.get id
  let bytes ← (s.blobStore.read ptr).toOption
  let envelope ← s.txStore.get id
  let stored ← (StoredTx.tryFrom c envelope).toOption
  let caller ← (txCaller stored).toOption
  let decoded ← decodeTxView c stored.kind caller stored.raw
  pure (txIndexView c id (.fromBytes bytes) stored decoded)

theorem readU32BE_append (x : UInt32) (rest : Bytes) :
    readU32BE (u32Bytes x ++ rest) = .ok (x.toNat, rest) :=
  readU32Safe_append x outOfRange rest

theorem readU64BE_append (x : UInt64) (rest : Bytes) :
    readU64BE (u64Bytes x ++ rest) = .ok (x.toNat, rest) :=
  readU64Safe_append x outOfRange rest

theorem readU16BE_append (x : UInt16) (rest : Bytes) :
    readU16BE (u16Bytes x ++ rest) = .ok (x.toNat, rest) := by
  have hx : x.toNat < 256 ^ 2 := x.toNat_lt
  have hlen : ¬ (u16Bytes x ++ rest).length < 2 := by
    rw [List.length_append, length_u16Bytes]
    omega
  rw [readU16BE, if_neg hlen, List.take_left' (length_u16Bytes x), List.drop_left' (length_u16Bytes x),
    u16Bytes, decode_encode_of_lt hx]

theorem readU8BE_ofNat {n : Nat} (h : n < 256) (rest : Bytes) :
    readU8BE (UInt8.ofNat n :: rest) = .ok (n, rest) := by
  have hn : (UInt8.ofNat n).toNat = n := UInt8.toNat_ofNat_of_lt h
  rw [readU8BE, readU8Safe, hn]

theorem if_length_pos (bytes : Bytes) :
    (if bytes.length > 0 then some bytes else none) = someUnlessNil bytes := by
  cases bytes with
  | nil => rfl
  | cons b bytes => rfl

theorem if_length_zero (bytes : Bytes) :
    (if bytes.length = 0 then none else some bytes) = someUnlessNil bytes := by
  cases bytes with
  | nil => rfl
  | cons b bytes => rfl

theorem readTxIndexHash_append {selector ethHash : Bytes} {minLen : Nat} (info : TxIndexInfo)
    (hselector : selector.length = 0 ∨ selector.length = 4)
    (hhash : ethHash.length = 0 ∨ ethHash.length = 32) (rest : Bytes) :
    readTxIndexHash (minLen + (1 + selector.length + 1 + ethHash.length)) minLen info
      (UInt8.ofNat selector.length :: (selector ++ (UInt8.ofNat ethHash.length :: (ethHash ++ rest)))) =
    .ok ({ info with txSelector := someUnlessNil selector, ethTxHash := someUnlessNil ethHash }, rest) := by
  have hextra : minLen + (1 + selector.length + 1 + ethHash.length) - minLen =
      1 + selector.length + 1 + ethHash.length := Nat.add_sub_cancel_left ..
  rw [readTxIndexHash, bind_of_scan (readU8BE_ofNat (by omega) _)]
  dsimp only
  rw [hextra, if_neg (by omega), if_neg (by omega), if_neg (by simp), List.take_left' rfl,
    List.drop_left' rfl, if_neg (by simp), bind_of_scan (readU8BE_ofNat (by omega) _)]
  dsimp only
  rw [if_neg (by omega), if_neg (by omega), if_neg (by simp), List.take_left' rfl, List.drop_left' rfl,
    if_length_pos, if_length_zero]
  rfl

theorem toList_map_length (dest : Option Address) :
    ((dest.map List.Vector.toList).getD []).length = 0 ∨
      ((dest.map List.Vector.toList).getD []).length = 20 := by
  cases dest with
  | none => exact .inl rfl
  | some addr => exact .inr addr.toList_length

theorem someUnlessNil_dest (dest : Option Address) :
    someUnlessNil ((dest.map List.Vector.toList).getD []) = dest.map List.Vector.toList := by
  cases dest with
  | none => rfl
  | some addr =>
      have hne : addr.toList ≠ [] := fun h => absurd (h ▸ addr.toList_length) (by decide)
      simp [someUnlessNil, hne]

theorem readTxIndexEntry_append {principal dest selector ethHash : Bytes}
    {principalLen : UInt16} (len : UInt32) (id : TxId) (entry : TxIndexEntry) (sender : Address)
    (hprincipal : principalLen.toNat = principal.length)
    (hdest : dest.length = 0 ∨ dest.length = 20)
    (hselector : selector.length = 0 ∨ selector.length = 4)
    (hhash : ethHash.length = 0 ∨ ethHash.length = 32)
    (hlen : len.toNat = 12 + 2 + principal.length + 20 + 1 + dest.length +
      (1 + selector.length + 1 + ethHash.length)) (rest : Bytes) :
    readTxIndexEntry (id.toList ++ (u32Bytes len ++ (u64Bytes entry.blockNumber ++
      (u32Bytes entry.txIndex ++ (u16Bytes principalLen ++ (principal ++ (sender.toList ++
        (UInt8.ofNat dest.length :: (dest ++ (UInt8.ofNat selector.length :: (selector ++
          (UInt8.ofNat ethHash.length :: (ethHash ++ rest))))))))))))) =
    .ok (⟨id.toList, someUnlessNil ethHash, entry.blockNumber.toNat, entry.txIndex.toNat,
      someUnlessNil principal, sender.toList, someUnlessNil dest, someUnlessNil selector⟩, rest) := by
  have hheader (data : Bytes) : ¬ (id.toList ++ (u32Bytes len ++ data)).length < 32 + 4 := by
    rw [List.length_append, List.length_append, List.Vector.toList_length, length_u32Bytes]
    omega
  rw [readTxIndexEntry, if_neg (hheader _), List.take_left' id.toList_length,
    List.drop_left' id.toList_length]
  dsimp only
  rw [bind_of_scan (readU32BE_append _ _)]
  dsimp only
  rw [if_neg (by
    simp only [List.length_append, List.length_cons, List.Vector.toList_length, length_u16Bytes,
      length_u32Bytes, length_u64Bytes]
    omega), if_neg (by omega), bind_of_scan (readU64BE_append _ _)]
  dsimp only
  rw [bind_of_scan (readU32BE_append _ _)]
  dsimp only
  rw [bind_of_scan (readU16BE_append _ _)]
  dsimp only
  rw [hprincipal, if_neg (by
    simp only [List.length_append, List.length_cons, List.Vector.toList_length]
    omega), if_neg (by omega), List.take_left' rfl, List.drop_left' rfl,
    List.take_left' sender.toList_length, List.drop_left' sender.toList_length,
    bind_of_scan (readU8BE_ofNat (by omega) _)]
  dsimp only
  rw [if_neg (by omega), if_neg (by omega), if_neg (by simp), List.take_left' rfl, List.drop_left' rfl,
    hlen, if_length_pos, if_length_zero]
  exact readTxIndexHash_append _ hselector hhash rest

theorem u16TryFrom_ok {e : ExportError} {n : Nat} {len : UInt16}
    (h : orError e (u16TryFrom n) = .ok len) : len.toNat = n := by
  rw [u16TryFrom] at h
  split_ifs at h with hlt
  · rw [← Except.ok.inj h]
    exact UInt16.toNat_ofNat_of_lt hlt
  · cases h

theorem orMissing_ok {A : Type} {reason : String} {x : Option A} {a : A}
    (h : orMissing reason x = .ok a) : x = some a := by
  cases x with
  | none => exact absurd h (by simp [orMissing, orError])
  | some b => exact congrArg some (Except.ok.inj h)

theorem someUnlessNil_selector (input : Bytes) :
    someUnlessNil (if input.length ≥ 4 then input.take 4 else []) =
      if input.length ≥ 4 then some (input.take 4) else none := by
  split_ifs with h
  · have hne : input.take 4 ≠ [] := fun hnil => by
      have hlen := congrArg List.length hnil
      simp only [List.length_take, List.length_nil] at hlen
      omega
    rw [someUnlessNil, if_neg hne]
  · rfl

section

variable {W : Type} {c : Crypto} {s : StableState W}

theorem readTxIndexEntry_toBytes {len : UInt32} {principalLen : UInt16} (id : TxId)
    (entry : TxIndexEntry) (stored : StoredTx) (decoded : DecodedTxView)
    (hprincipal : principalLen.toNat = stored.callerPrincipal.bytes.length)
    (hlen : len.toNat = entry.toBytes.length + 2 + stored.callerPrincipal.bytes.length +
      (txIndexTail c stored decoded).length) (rest : Bytes) :
    readTxIndexEntry (id.toList ++ (u32Bytes len ++ (entry.toBytes ++ (u16Bytes principalLen ++
      (stored.callerPrincipal.bytes ++ txIndexTail c stored decoded)))) ++ rest) =
    .ok (txIndexView c id entry stored decoded, rest) := by
  have hselector : (if decoded.input.length ≥ 4 then decoded.input.take 4 else []).length = 0 ∨
      (if decoded.input.length ≥ 4 then decoded.input.take 4 else []).length = 4 := by
    split_ifs with h
    · exact .inr (by simpa using h)
    · exact .inl rfl
  have hhash : (if stored.kind = .ethSigned then (c.keccak256 stored.raw).toList else []).length = 0 ∨
      (if stored.kind = .ethSigned then (c.keccak256 stored.raw).toList else []).length = 32 := by
    split_ifs
    · exact .inr (c.keccak256 stored.raw).toList_length
    · exact .inl rfl
  have hview : someUnlessNil (if stored.kind = .ethSigned then (c.keccak256 stored.raw).toList else []) =
      if stored.kind = .ethSigned then some (c.keccak256 stored.raw).toList else none := by
    split_ifs
    · have hne : (c.keccak256 stored.raw).toList ≠ [] := fun hnil =>
        absurd (hnil ▸ (c.keccak256 stored.raw).toList_length) (by decide)
      rw [someUnlessNil, if_neg hne]
    · rfl
  simp only [txIndexTail, TxIndexEntry.toBytes, List.length_append, List.length_cons, length_u64Bytes,
    length_u32Bytes, List.Vector.toList_length] at hlen
  have hread := readTxIndexEntry_append len id entry decoded.sender hprincipal
    (toList_map_length decoded.dest) hselector hhash (by omega) rest
  rw [someUnlessNil_dest, someUnlessNil_selector, hview] at hread
  simpa [txIndexTail, TxIndexEntry.toBytes, txIndexView, List.append_assoc] using hread

theorem txIndexEntry_read {id : TxId} {entry : Bytes} (h : txIndexEntry c s id = .ok entry) :
    ∃ info, exportedTx c s id = some info ∧
      ∀ rest, readTxIndexEntry (entry ++ rest) = .ok (info, rest) := by
  obtain ⟨ptr, hptr, h⟩ := bind_eq_ok.mp h
  obtain ⟨bytes, hbytes, h⟩ := bind_eq_ok.mp h
  dsimp only at h
  split_ifs at h
  obtain ⟨stored, hstored, h⟩ := bind_eq_ok.mp h
  obtain ⟨caller, hcaller, h⟩ := bind_eq_ok.mp h
  obtain ⟨decoded, hdecoded, h⟩ := bind_eq_ok.mp h
  obtain ⟨principalLen, hprincipal, h⟩ := bind_eq_ok.mp h
  obtain ⟨len, hlen, h⟩ := bind_eq_ok.mp h
  obtain rfl := Except.ok.inj h
  obtain ⟨envelope, henvelope, hstored⟩ := Option.bind_eq_some_iff.mp (orMissing_ok hstored)
  have henvelope := (Option.filter_eq_some_iff.mp henvelope).1
  obtain ⟨hlt, rfl⟩ := u32TryFrom_ok hlen
  refine ⟨txIndexView c id (.fromBytes bytes) stored decoded, ?_, fun rest =>
    readTxIndexEntry_toBytes id _ stored decoded (u16TryFrom_ok hprincipal)
      (UInt32.toNat_ofNat_of_lt hlt) rest⟩
  have hread : (s.blobStore.read ptr).toOption = some bytes := by
    rw [read_of_readBlob hbytes]
    rfl
  have hsender : (txCaller stored).toOption = some caller := by
    rw [hcaller]
    rfl
  simp [exportedTx, orMissing_ok hptr, hread, henvelope, hstored, hsender, orMissing_ok hdecoded]

theorem decodeTxIndexLoop_payload {ids : List TxId} {payload : Bytes}
    (h : buildTxIndexPayload c s ids = .ok payload) (before : List TxIndexInfo) {fuel : Nat}
    (hfuel : payload.length ≤ fuel) :
    ∃ txs, ids.mapM (exportedTx c s) = some txs ∧
      decodeTxIndexLoop fuel before payload = .ok (before ++ txs) := by
  induction ids generalizing payload before fuel with
  | nil =>
      obtain rfl := Except.ok.inj h
      refine ⟨[], rfl, ?_⟩
      rw [List.append_nil]
      cases fuel with
      | zero => rfl
      | succ fuel => rfl
  | cons id ids ih =>
      obtain ⟨entry, hentry, h⟩ := bind_eq_ok.mp h
      obtain ⟨tail, htail, h⟩ := bind_eq_ok.mp h
      obtain rfl := Except.ok.inj h
      obtain ⟨info, hinfo, hread⟩ := txIndexEntry_read hentry
      have hpos : 0 < entry.length := List.length_pos_iff.mpr (txIndexEntry_ne_nil hentry)
      rw [List.length_append] at hfuel
      cases fuel with
      | zero => omega
      | succ fuel =>
          obtain ⟨txs, htxs, hloop⟩ := ih htail (before ++ [info]) (show _ ≤ fuel by omega)
          refine ⟨info :: txs, by simp [List.mapM_cons, hinfo, htxs], ?_⟩
          rw [decodeTxIndexLoop, if_neg (by rw [List.length_append]; omega), bind_of_scan (hread tail)]
          dsimp only
          rw [hloop, List.append_assoc, List.singleton_append]

-- what the indexer reads from the tx_index segment is what the chain stores of its transactions
theorem txs_decoded {ids : List TxId} {payload : Bytes}
    (h : buildTxIndexPayload c s ids = .ok payload) :
    ∃ txs, ids.mapM (exportedTx c s) = some txs ∧ decodeTxIndexPayload payload = .ok txs :=
  decodeTxIndexLoop_payload h [] (Nat.le_refl _)

end

def sampleTxIds : List TxId := [lastByteArr 32 [1], lastByteArr 32 [2]]

def sampleTxIndex : Bytes :=
  (buildTxIndexPayload sampleCrypto sampleBlocks sampleTxIds).toOption.getD []

theorem txs_decoded_sample :
    ∃ txs, sampleTxIds.mapM (exportedTx sampleCrypto sampleBlocks) = some txs ∧
      decodeTxIndexPayload sampleTxIndex = .ok txs :=
  txs_decoded (show buildTxIndexPayload sampleCrypto sampleBlocks sampleTxIds = .ok sampleTxIndex by
    decide +kernel)

example : (sampleTxIds.mapM (exportedTx sampleCrypto sampleBlocks)).map
    (List.map TxIndexInfo.blockNumber) = some [1, 2] := by decide +kernel

structure InternalTransactionInfo where
  txHash : Bytes
  blockNumber : Nat
  txIndex : Nat
  traceId : Bytes
  traceSortKey : Bytes
  depth : Nat
  actionType : InternalTraceActionKind
  fromAddress : Bytes
  toAddress : Option Bytes
  value : Nat
  createdContractAddress : Option Bytes
  success : Bool
  errorCode : Option Bytes
deriving DecidableEq

structure InternalTraceTxInfo where
  txHash : Bytes
  failed : Bool
  truncated : Bool
  capturedCount : Nat
  totalCount : Nat
deriving DecidableEq

structure DecodedInternalTracesInfo where
  transactions : List InternalTransactionInfo
  txs : List InternalTraceTxInfo
deriving DecidableEq

def entryTruncated : String := "internal_traces entry truncated"

def invalidTraceId : String := "internal_traces invalid trace_id"

-- an entry lies inside the payload, so its readers are given the bytes up to its end
def readWithin {A : Type} (len : Nat) (read : Scan A) : Scan A := fun data =>
  if data.length < len then .error entryTruncated else read data

def readU8Within : Scan Nat := readWithin 1 readU8BE

def readU16BEWithin : Scan Nat := readWithin 2 readU16BE

def readU32BEWithin : Scan Nat := readWithin 4 readU32BE

def readU64BEWithin : Scan Nat := readWithin 8 readU64BE

def decodeInternalActionType : Nat → Except String InternalTraceActionKind
  | 1 => .ok .call
  | 2 => .ok .callCode
  | 3 => .ok .delegateCall
  | 4 => .ok .staticCall
  | 5 => .ok .create
  | 6 => .ok .create2
  | 7 => .ok .custom
  | 8 => .ok .selfdestruct
  | _ => .error "internal_traces invalid action type"

-- a text is kept as its bytes; the export writes valid UTF-8 only
def isTraceId (traceId : Bytes) : Bool :=
  (traceId.splitOn 0x5f).all (fun segment =>
    decide (segment ≠ []) && segment.all (fun b => decide (0x30 ≤ b ∧ b ≤ 0x39)))

def padStart (segment : Bytes) : Bytes := List.replicate (10 - segment.length) 0x30 ++ segment

def paddedTraceId (traceId : Bytes) : Bytes :=
  List.intercalate [0x5f] ((traceId.splitOn 0x5f).map padStart)

def Numbered (items : List InternalTrace) : Prop := ∀ item ∈ items, isTraceId item.traceId = true

instance numberedDecidable (items : List InternalTrace) : Decidable (Numbered items) :=
  List.decidableBAll (fun (item : InternalTrace) => isTraceId item.traceId = true) items

def traceIdToSortKey (traceId : Bytes) : Except String Bytes :=
  if isTraceId traceId then .ok (paddedTraceId traceId) else .error invalidTraceId

def readBit (invalid : String) : Scan Bool := fun data => do
  let (byte, data) ← readU8Within data
  if byte ≠ 0 ∧ byte ≠ 1 then .error invalid else pure (decide (byte = 1), data)

def readFlaggedAddress (truncated invalid : String) : Scan (Option Bytes) := fun data => do
  let (flag, data) ← readU8Within data
  if flag = 1 then do
    let (address, data) ← readSlice 20 truncated data
    pure (some address, data)
  else if flag ≠ 0 then .error invalid
  else pure (none, data)

def readInternalTransaction (txHash : Bytes) : Scan InternalTransactionInfo := fun data => do
  let (blockNumber, data) ← readU64BEWithin data
  let (txIndex, data) ← readU32BEWithin data
  let (traceIdLen, data) ← readU16BEWithin data
  let (traceId, data) ← readSlice traceIdLen "internal_traces trace_id truncated" data
  let (depth, data) ← readU16BEWithin data
  let (actionRaw, data) ← readU8Within data
  let actionType ← decodeInternalActionType actionRaw
  if data.length < 20 + 1 + 32 + 1 + 1 + 2 then .error entryTruncated
  else do
    let (fromAddress, data) ← readSlice 20 entryTruncated data
    let (toAddress, data) ← readFlaggedAddress "internal_traces to_address truncated"
      "internal_traces invalid to flag" data
    let (value, data) ← readSlice 32 "internal_traces value truncated" data
    let (createdContractAddress, data) ← readFlaggedAddress
      "internal_traces created address truncated" "internal_traces invalid created flag" data
    let (success, data) ← readBit "internal_traces invalid success flag" data
    let (errorLen, data) ← readU16BEWithin data
    let (errorCode, data) ← readSlice errorLen "internal_traces error_code truncated" data
    let traceSortKey ← traceIdToSortKey traceId
    pure (⟨txHash, blockNumber, txIndex, traceId, traceSortKey, depth, actionType, fromAddress,
      toAddress, decode value, createdContractAddress, success,
      if errorLen = 0 then none else some errorCode⟩, data)

def readInternalTransactions (txHash : Bytes) : Nat → Scan (List InternalTransactionInfo)
  | 0, data => .ok ([], data)
  | n + 1, data => do
      let (item, data) ← readInternalTransaction txHash data
      let (items, data) ← readInternalTransactions txHash n data
      pure (item :: items, data)

def readFailed (version : Nat) : Scan Bool := fun data =>
  if version ≥ 3 then readBit "internal_traces invalid failed flag" data else .ok (false, data)

def decodeInternalTracesEntry (txHash entry : Bytes) :
    Except String (InternalTraceTxInfo × List InternalTransactionInfo) := do
  let (version, data) ← readU8Within entry
  if version ≠ 2 ∧ version ≠ 3 then .error "internal_traces unsupported version"
  else do
    let (failed, data) ← readFailed version data
    let (truncated, data) ← readBit "internal_traces invalid truncated flag" data
    let (capturedCount, data) ← readU32BEWithin data
    let (totalCount, data) ← readU32BEWithin data
    let (count, data) ← readU32BEWithin data
    if capturedCount ≠ count then .error "internal_traces captured_count mismatch"
    else if totalCount < capturedCount then .error "internal_traces total_count mismatch"
    else do
      let (transactions, data) ← readInternalTransactions txHash count data
      if data.length ≠ 0 then .error "internal_traces entry framing mismatch"
      else pure (⟨txHash, failed, truncated, capturedCount, totalCount⟩, transactions)

def decodeInternalTracesLoop : Nat → DecodedInternalTracesInfo → Bytes →
    Except String DecodedInternalTracesInfo
  | 0, acc, _ => .ok acc
  | fuel + 1, acc, data =>
      if data.length = 0 then .ok acc
      else if data.length < 32 + 4 then .error "internal_traces payload truncated"
      else do
        let (entryLen, rest) ← readU32BE (data.drop 32)
        if rest.length < entryLen then .error "internal_traces payload length mismatch"
        else
          let (tx, transactions) ← decodeInternalTracesEntry (data.take 32) (rest.take entryLen)
          decodeInternalTracesLoop fuel ⟨acc.transactions ++ transactions, acc.txs ++ [tx]⟩
            (rest.drop entryLen)

def decodeInternalTracesPayload (payload : Bytes) : Except String DecodedInternalTracesInfo :=
  decodeInternalTracesLoop payload.length ⟨[], []⟩ payload

def internalTransactionView (id : TxId) (item : InternalTrace) : InternalTransactionInfo where
  txHash := id.toList
  blockNumber := item.blockNumber.toNat
  txIndex := item.txIndex.toNat
  traceId := item.traceId
  traceSortKey := paddedTraceId item.traceId
  depth := item.depth.toNat
  actionType := item.actionKind
  fromAddress := item.fromAddress.toList
  toAddress := item.toAddress.map List.Vector.toList
  value := decode item.value.toList
  createdContractAddress := item.createdContractAddress.map List.Vector.toList
  success := item.success
  errorCode := someUnlessNil (item.errorCode.getD [])

def tracesView (traces : List (TxId × InternalTraceSet)) : DecodedInternalTracesInfo where
  transactions := traces.flatMap (fun e => e.2.items.map (internalTransactionView e.1))
  txs := traces.map (fun e => ⟨e.1.toList, e.2.encodeFailed, e.2.truncated,
    e.2.capturedCount.toNat, e.2.totalCount.toNat⟩)

def exportedTraces {W : Type} (s : StableState W) (id : TxId) : Option (TxId × InternalTraceSet) := do
  let ptr ← s.internalTraces.get id
  let bytes ← (s.blobStore.read ptr).toOption
  pure (id, .fromBytes bytes)

def storedTraces (traces : List (TxId × InternalTraceSet)) : List InternalTrace :=
  traces.flatMap (fun e => e.2.items)

theorem numbered_nil : Numbered [] := fun _ hitem => absurd hitem List.not_mem_nil

theorem numbered_cons {item : InternalTrace} {items : List InternalTrace} :
    Numbered (item :: items) ↔ isTraceId item.traceId = true ∧ Numbered items :=
  List.forall_mem_cons

theorem numbered_append {items items' : List InternalTrace} :
    Numbered (items ++ items') ↔ Numbered items ∧ Numbered items' :=
  List.forall_mem_append

theorem readWithin_append {A : Type} {len : Nat} {read : Scan A} {xs rest : Bytes} {x : A}
    (hlen : len ≤ xs.length) (h : read (xs ++ rest) = .ok (x, rest)) :
    readWithin len read (xs ++ rest) = .ok (x, rest) := by
  rw [readWithin, if_neg (by rw [List.length_append]; omega), h]

theorem readU8Within_cons (b : UInt8) (rest : Bytes) :
    readU8Within (b :: rest) = .ok (b.toNat, rest) := by
  rw [readU8Within, readWithin, if_neg (by simp)]
  rfl

theorem readU16BEWithin_append (x : UInt16) (rest : Bytes) :
    readU16BEWithin (u16Bytes x ++ rest) = .ok (x.toNat, rest) :=
  readWithin_append (length_u16Bytes x).ge (readU16BE_append x rest)

theorem readU32BEWithin_append (x : UInt32) (rest : Bytes) :
    readU32BEWithin (u32Bytes x ++ rest) = .ok (x.toNat, rest) :=
  readWithin_append (length_u32Bytes x).ge (readU32BE_append x rest)

theorem readU64BEWithin_append (x : UInt64) (rest : Bytes) :
    readU64BEWithin (u64Bytes x ++ rest) = .ok (x.toNat, rest) :=
  readWithin_append (length_u64Bytes x).ge (readU64BE_append x rest)

theorem readBit_cons (b : Bool) (invalid : String) (rest : Bytes) :
    readBit invalid ((if b then 1 else 0) :: rest) = .ok (b, rest) := by
  rw [readBit, bind_of_scan (readU8Within_cons _ _)]
  cases b with
  | false => rfl
  | true => rfl

theorem readFlaggedAddress_append (address : Option (ByteArr 20)) (truncated invalid : String)
    (rest : Bytes) :
    readFlaggedAddress truncated invalid (encodeOptionalAddress address ++ rest) =
      .ok (address.map List.Vector.toList, rest) := by
  cases address with
  | none =>
      rw [encodeOptionalAddress, List.singleton_append, readFlaggedAddress,
        bind_of_scan (readU8Within_cons _ _)]
      rfl
  | some value =>
      rw [encodeOptionalAddress, List.cons_append, readFlaggedAddress,
        bind_of_scan (readU8Within_cons _ _)]
      dsimp only
      rw [if_pos (by decide), bind_of_scan (readSlice_array value _ _)]
      rfl

theorem length_encodeOptionalAddress_pos (address : Option (ByteArr 20)) :
    1 ≤ (encodeOptionalAddress address).length := by
  cases address with
  | none => exact Nat.le_refl _
  | some value => simp [encodeOptionalAddress]

theorem decodeInternalActionType_toU8 (kind : InternalTraceActionKind) :
    decodeInternalActionType kind.toU8.toNat = .ok kind := by
  cases kind <;> rfl

theorem readInternalTransaction_append {item : InternalTrace} {entry : Bytes}
    (h : encodeInternalTrace item = .ok entry) (id : TxId) (rest : Bytes) :
    readInternalTransaction id.toList (entry ++ rest) =
      if isTraceId item.traceId then .ok (internalTransactionView id item, rest)
      else .error invalidTraceId := by
  obtain ⟨traceIdLen, htraceId, h⟩ := bind_eq_ok.mp h
  dsimp only at h
  obtain ⟨errorLen, herror, h⟩ := bind_eq_ok.mp h
  obtain rfl := Except.ok.inj h
  have hto := length_encodeOptionalAddress_pos item.toAddress
  have hcreated := length_encodeOptionalAddress_pos item.createdContractAddress
  simp only [List.append_assoc, List.cons_append]
  rw [readInternalTransaction, bind_of_scan (readU64BEWithin_append _ _)]
  dsimp only
  rw [bind_of_scan (readU32BEWithin_append _ _)]
  dsimp only
  rw [bind_of_scan (readU16BEWithin_append _ _)]
  dsimp only
  rw [u16TryFrom_ok htraceId, bind_of_scan (readSlice_append rfl _ _)]
  dsimp only
  rw [bind_of_scan (readU16BEWithin_append _ _)]
  dsimp only
  rw [bind_of_scan (readU8Within_cons _ _)]
  dsimp only
  rw [decodeInternalActionType_toU8]
  change (if _ then _ else _) = _
  rw [if_neg (by
    simp only [List.length_append, List.length_cons, List.Vector.toList_length, length_u16Bytes]
    omega), bind_of_scan (readSlice_array item.fromAddress _ _)]
  dsimp only
  rw [bind_of_scan (readFlaggedAddress_append item.toAddress _ _ _)]
  dsimp only
  rw [bind_of_scan (readSlice_array item.value _ _)]
  dsimp only
  rw [bind_of_scan (readFlaggedAddress_append item.createdContractAddress _ _ _)]
  dsimp only
  rw [bind_of_scan (readBit_cons item.success _ _)]
  dsimp only
  rw [bind_of_scan (readU16BEWithin_append _ _)]
  dsimp only
  rw [u16TryFrom_ok herror, bind_of_scan (readSlice_append rfl _ _)]
  dsimp only
  rw [if_length_zero, traceIdToSortKey]
  by_cases hid : isTraceId item.traceId
  · rw [if_pos hid, if_pos hid]
    rfl
  · rw [if_neg hid, if_neg hid]
    rfl

theorem readInternalTransactions_append {items : List InternalTrace} {entries : Bytes}
    (h : encodeInternalTraceItems items = .ok entries) (id : TxId) (rest : Bytes) :
    readInternalTransactions id.toList items.length (entries ++ rest) =
      if Numbered items then .ok (items.map (internalTransactionView id), rest)
      else .error invalidTraceId := by
  induction items generalizing entries with
  | nil =>
      obtain rfl := Except.ok.inj h
      rw [if_pos numbered_nil]
      rfl
  | cons item items ih =>
      obtain ⟨entry, hentry, h⟩ := bind_eq_ok.mp h
      obtain ⟨tail, htail, h⟩ := bind_eq_ok.mp h
      obtain rfl := Except.ok.inj h
      have hitem := readInternalTransaction_append hentry id (tail ++ rest)
      rw [List.append_assoc, List.length_cons, readInternalTransactions]
      by_cases hnamed : isTraceId item.traceId
      · rw [if_pos hnamed] at hitem
        rw [bind_of_scan hitem]
        dsimp only
        rw [ih htail]
        by_cases hall : Numbered items
        · rw [if_pos hall, if_pos (numbered_cons.mpr ⟨hnamed, hall⟩)]
          rfl
        · rw [if_neg hall, if_neg (fun h => hall (numbered_cons.mp h).2)]
          rfl
      · rw [if_neg hnamed] at hitem
        rw [hitem, if_neg (fun h => hnamed (numbered_cons.mp h).1)]
        rfl

theorem decodeInternalTracesEntry_encoded {traces : InternalTraceSet} {entry : Bytes}
    (h : encodeInternalTraceEntries traces = .ok entry) (id : TxId) :
    decodeInternalTracesEntry id.toList entry =
      if Numbered traces.items then
        .ok (⟨id.toList, traces.encodeFailed, traces.truncated, traces.capturedCount.toNat,
          traces.totalCount.toNat⟩, traces.items.map (internalTransactionView id))
      else .error invalidTraceId := by
  obtain ⟨count, hcount, h⟩ := bind_eq_ok.mp h
  have hcounts : ¬ (traces.capturedCount ≠ count ∨ traces.totalCount < traces.capturedCount) :=
    fun hbad => by
      rw [if_pos hbad] at h
      cases h
  rw [if_neg hcounts] at h
  obtain ⟨items, hitems, h⟩ := bind_eq_ok.mp h
  obtain rfl := Except.ok.inj h
  obtain ⟨hlt, rfl⟩ := u32TryFrom_ok hcount
  obtain ⟨hsame, htotal⟩ := not_or.mp hcounts
  have hlen : (UInt32.ofNat traces.items.length).toNat = traces.items.length :=
    UInt32.toNat_ofNat_of_lt hlt
  have hcaptured : traces.capturedCount.toNat = traces.items.length := by
    rw [not_not.mp hsame, hlen]
  have htotal : ¬ traces.totalCount.toNat < traces.capturedCount.toNat := fun hless => htotal hless
  have hread := readInternalTransactions_append hitems id []
  rw [List.append_nil] at hread
  rw [decodeInternalTracesEntry, bind_of_scan (readU8Within_cons _ _)]
  dsimp only
  rw [if_neg (by decide), readFailed, if_pos (by decide), bind_of_scan (readBit_cons _ _ _)]
  dsimp only
  rw [bind_of_scan (readBit_cons _ _ _)]
  dsimp only
  rw [bind_of_scan (readU32BEWithin_append _ _)]
  dsimp only
  rw [bind_of_scan (readU32BEWithin_append _ _)]
  dsimp only
  rw [bind_of_scan (readU32BEWithin_append _ _)]
  dsimp only
  rw [hlen, if_neg (not_not.mpr hcaptured), if_neg htotal, hread]
  by_cases hall : Numbered traces.items
  · rw [if_pos hall, if_pos hall]
    rfl
  · rw [if_neg hall, if_neg hall]
    rfl

theorem tracesView_append (before : List (TxId × InternalTraceSet)) (id : TxId)
    (traces : InternalTraceSet) :
    tracesView (before ++ [(id, traces)]) =
      ⟨(tracesView before).transactions ++ traces.items.map (internalTransactionView id),
        (tracesView before).txs ++ [⟨id.toList, traces.encodeFailed, traces.truncated,
          traces.capturedCount.toNat, traces.totalCount.toNat⟩]⟩ := by
  simp [tracesView]

section

variable {W : Type} {s : StableState W}

theorem internalTraceEntry_frame {id : TxId} {entry : Bytes} (h : internalTraceEntry s id = .ok entry) :
    (exportedTraces s id = none ∧ entry = []) ∨ ∃ traces encoded,
      exportedTraces s id = some (id, traces) ∧ encodeInternalTraceEntries traces = .ok encoded ∧
        encoded.length < 2 ^ 32 ∧
          entry = id.toList ++ (u32Bytes (UInt32.ofNat encoded.length) ++ encoded) := by
  rw [internalTraceEntry] at h
  cases hptr : s.internalTraces.get id with
  | none =>
      rw [hptr] at h
      exact .inl ⟨by simp [exportedTraces, hptr], (Except.ok.inj h).symm⟩
  | some ptr =>
      rw [hptr] at h
      obtain ⟨bytes, hbytes, h⟩ := bind_eq_ok.mp h
      obtain ⟨encoded, hencoded, h⟩ := bind_eq_ok.mp h
      obtain ⟨len, hlen, h⟩ := bind_eq_ok.mp h
      obtain rfl := Except.ok.inj h
      obtain ⟨hlt, rfl⟩ := u32TryFrom_ok hlen
      have hread : (s.blobStore.read ptr).toOption = some bytes := by
        rw [read_of_readBlob hbytes]
        rfl
      exact .inr ⟨.fromBytes bytes, encoded, by simp [exportedTraces, hptr, hread], hencoded, hlt, rfl⟩

theorem decodeInternalTracesLoop_payload {ids : List TxId} {payload : Bytes}
    (h : buildInternalTracesPayload s ids = .ok payload) (before : List (TxId × InternalTraceSet))
    {fuel : Nat} (hfuel : payload.length ≤ fuel) :
    decodeInternalTracesLoop fuel (tracesView before) payload =
      if Numbered (storedTraces (ids.filterMap (exportedTraces s))) then
        .ok (tracesView (before ++ ids.filterMap (exportedTraces s)))
      else .error invalidTraceId := by
  induction ids generalizing payload before fuel with
  | nil =>
      obtain rfl := Except.ok.inj h
      rw [List.filterMap_nil, List.append_nil, storedTraces, List.flatMap_nil,
        if_pos numbered_nil]
      cases fuel with
      | zero => rfl
      | succ fuel => rfl
  | cons id ids ih =>
      obtain ⟨entry, hentry, h⟩ := bind_eq_ok.mp h
      obtain ⟨tail, htail, h⟩ := bind_eq_ok.mp h
      obtain rfl := Except.ok.inj h
      obtain ⟨hnone, rfl⟩ | ⟨traces, encoded, hsome, hencoded, hlt, rfl⟩ := internalTraceEntry_frame hentry
      · rw [List.filterMap_cons_none hnone]
        exact ih htail before hfuel
      · have hlen : (UInt32.ofNat encoded.length).toNat = encoded.length := UInt32.toNat_ofNat_of_lt hlt
        rw [List.filterMap_cons_some hsome]
        simp only [List.append_assoc] at hfuel ⊢
        have htotal : 36 + tail.length ≤ fuel := by
          simp only [List.length_append, List.Vector.toList_length, length_u32Bytes] at hfuel
          omega
        cases fuel with
        | zero => omega
        | succ fuel =>
            rw [decodeInternalTracesLoop, if_neg (by simp), if_neg (by simp; omega),
              List.drop_left' id.toList_length, List.take_left' id.toList_length,
              bind_of_scan (readU32BE_append _ _)]
            dsimp only
            rw [hlen, if_neg (by simp), List.take_left' rfl, List.drop_left' rfl,
              decodeInternalTracesEntry_encoded hencoded]
            have hcons : storedTraces ((id, traces) :: ids.filterMap (exportedTraces s)) =
                traces.items ++ storedTraces (ids.filterMap (exportedTraces s)) := List.flatMap_cons
            rw [hcons]
            by_cases hnamed : Numbered traces.items
            · have hnext := ih htail (before ++ [(id, traces)]) (show _ ≤ fuel by omega)
              rw [tracesView_append, List.append_assoc, List.singleton_append] at hnext
              rw [if_pos hnamed]
              refine Eq.trans hnext ?_
              by_cases hall : Numbered (storedTraces (ids.filterMap (exportedTraces s)))
              · rw [if_pos hall, if_pos (numbered_append.mpr ⟨hnamed, hall⟩)]
              · rw [if_neg hall, if_neg (fun h => hall (numbered_append.mp h).2)]
            · rw [if_neg hnamed, if_neg (fun h => hnamed (numbered_append.mp h).1)]
              rfl

-- the sort key of a trace needs a numbered id, so one foreign id loses the whole payload
theorem traces_decoded {ids : List TxId} {payload : Bytes}
    (h : buildInternalTracesPayload s ids = .ok payload) :
    decodeInternalTracesPayload payload =
      if Numbered (storedTraces (ids.filterMap (exportedTraces s))) then
        .ok (tracesView (ids.filterMap (exportedTraces s)))
      else .error invalidTraceId :=
  decodeInternalTracesLoop_payload h [] (Nat.le_refl _)

end

def sampleTrace : InternalTrace where
  blockNumber := 1
  txIndex := 0
  traceId := [0x30]
  depth := 1
  actionKind := .call
  fromAddress := zeroArr 20
  toAddress := none
  value := zeroArr 32
  createdContractAddress := none
  success := true
  errorCode := none

def sampleTraces : InternalTraceSet := ⟨[sampleTrace], false, 1, 1, false⟩

def tracedState : StableState Unit := { StableState.init () with
  blobStore := (Blob.BlobStore.empty.storeBytes (fun _ => true) sampleTraces.encoded).2
  internalTraces := OrdMap.empty.insert Receipt.sampleTxId ⟨0, 97, 8192, 1⟩ }

def sampleTracesPayload : Bytes :=
  (buildInternalTracesPayload tracedState [Receipt.sampleTxId]).toOption.getD []

theorem traces_decoded_sample :
    decodeInternalTracesPayload sampleTracesPayload =
      if Numbered (storedTraces ([Receipt.sampleTxId].filterMap (exportedTraces tracedState))) then
        .ok (tracesView ([Receipt.sampleTxId].filterMap (exportedTraces tracedState)))
      else .error invalidTraceId :=
  traces_decoded (show buildInternalTracesPayload tracedState [Receipt.sampleTxId] =
    .ok sampleTracesPayload by decide +kernel)

section

open Exec.Trace (renderTraceId segmentChars toList_renderTraceId recorded traceId_recorded Records
  TraceAction TraceForest Selfdestruct InternalTraceInspector records_finish)
open Gateway (textBytes)

theorem before_segments {ids ids' : List Nat} (h : ids < ids') (hb : ∀ n ∈ ids', n < 10 ^ 10) :
    Before (ids.flatMap (fun n => 0x5f :: fixedDecimal 10 n))
      (ids'.flatMap (fun n => 0x5f :: fixedDecimal 10 n)) := by
  induction ids generalizing ids' with
  | nil =>
      cases ids' with
      | nil => exact absurd h (List.lt_irrefl _)
      | cons n ids' => exact before_nil_cons _ _
  | cons m ids ih =>
      cases ids' with
      | nil => exact absurd h (List.not_lt_nil _)
      | cons n ids' =>
          obtain ⟨hn, hids⟩ := List.forall_mem_cons.mp hb
          rw [List.flatMap_cons, List.flatMap_cons, before_append (by simp), before_cons]
          rcases List.cons_lt_cons_iff.mp h with hlt | ⟨rfl, hlt⟩
          · exact .inl (before_fixedDecimal hlt hn)
          · exact .inr ⟨rfl, ih hlt hids⟩

theorem intercalate_cons_flatMap {α : Type} (x : α) (first : List α) (rest : List (List α)) :
    [x].intercalate (first :: rest) = first ++ rest.flatMap (fun l => x :: l) := by
  induction rest generalizing first with
  | nil => simp
  | cons second rest ih =>
      rw [List.intercalate_cons_cons, ih, List.flatMap_cons, List.append_assoc, List.singleton_append,
        List.cons_append]

theorem flatMap_utf8EncodeChar {chars : List Char} (h : ∀ c ∈ chars, c.utf8Size = 1) :
    chars.flatMap String.utf8EncodeChar = chars.map (fun c => c.val.toUInt8) := by
  induction chars with
  | nil => rfl
  | cons c chars ih =>
      obtain ⟨hc, hchars⟩ := List.forall_mem_cons.mp h
      rw [List.flatMap_cons, String.utf8EncodeChar_eq_singleton hc, ih hchars, List.map_cons,
        List.singleton_append]

theorem textBytes_ascii {text : String} (h : ∀ c ∈ text.toList, c.utf8Size = 1) :
    textBytes text = text.toList.map (fun c => c.val.toUInt8) := by
  rw [textBytes, ← String.utf8Encode_toList, List.utf8Encode, List.toList_data_toByteArray,
    flatMap_utf8EncodeChar h]

theorem utf8Size_digit {n : Nat} {c : Char} (h : c ∈ Nat.toDigits 10 n) : c.utf8Size = 1 := by
  have hdigit := Nat.isDigit_of_mem_toDigits (by decide) (by decide) h
  simp only [Char.isDigit, Bool.and_eq_true, decide_eq_true_eq] at hdigit
  exact Char.utf8Size_eq_one_iff.mpr (UInt32.le_trans hdigit.2 (by decide))

theorem textBytes_renderTraceId (n : Nat) (ids : List Nat) :
    textBytes (renderTraceId (n :: ids)) = [0x5f].intercalate ((n :: ids).map decimal) := by
  have hascii : ∀ c ∈ (renderTraceId (n :: ids)).toList, c.utf8Size = 1 := by
    intro c hc
    rw [toList_renderTraceId, List.mem_append] at hc
    rcases hc with hc | hc
    · exact utf8Size_digit hc
    · obtain ⟨m, -, hc⟩ := List.mem_flatMap.mp hc
      rcases List.mem_cons.mp hc with rfl | hc
      · rfl
      · exact utf8Size_digit hc
  rw [textBytes_ascii hascii, toList_renderTraceId, List.map_append, List.map_cons,
    intercalate_cons_flatMap, segmentChars, List.map_flatMap, List.flatMap_map]
  rfl

theorem splitOn_renderTraceId (n : Nat) (ids : List Nat) :
    (textBytes (renderTraceId (n :: ids))).splitOn 0x5f = (n :: ids).map decimal := by
  rw [textBytes_renderTraceId]
  refine List.splitOn_intercalate 0x5f (fun segment hsegment hmem => ?_) (by simp)
  obtain ⟨m, -, rfl⟩ := List.mem_map.mp hsegment
  exact absurd (mem_decimal hmem).2 (by decide)

theorem isTraceId_renderTraceId (n : Nat) (ids : List Nat) :
    isTraceId (textBytes (renderTraceId (n :: ids))) = true := by
  rw [isTraceId, splitOn_renderTraceId, List.all_eq_true]
  intro segment hsegment
  obtain ⟨m, -, rfl⟩ := List.mem_map.mp hsegment
  rw [Bool.and_eq_true, decide_eq_true_eq, List.all_eq_true]
  exact ⟨decimal_ne_nil m, fun b hb => decide_eq_true (mem_decimal hb)⟩

theorem paddedTraceId_renderTraceId {n : Nat} {ids : List Nat} (h : ∀ m ∈ n :: ids, m < 10 ^ 10) :
    0x5f :: paddedTraceId (textBytes (renderTraceId (n :: ids))) =
      (n :: ids).flatMap (fun m => 0x5f :: fixedDecimal 10 m) := by
  have hpad : ((n :: ids).map decimal).map padStart = (n :: ids).map (fixedDecimal 10) := by
    rw [List.map_map]
    exact List.map_congr_left (fun m hm => padded_decimal (h m hm))
  rw [paddedTraceId, splitOn_renderTraceId, hpad, List.map_cons, intercalate_cons_flatMap,
    List.flatMap_map, List.flatMap_cons, List.cons_append]

theorem before_paddedTraceId {ids ids' : List Nat} (hids : ids ≠ []) (hids' : ids' ≠ [])
    (hb : ∀ n ∈ ids, n < 10 ^ 10) (hb' : ∀ n ∈ ids', n < 10 ^ 10) (h : ids < ids') :
    Before (paddedTraceId (textBytes (renderTraceId ids)))
      (paddedTraceId (textBytes (renderTraceId ids'))) := by
  obtain ⟨m, ids, rfl⟩ := List.exists_cons_of_ne_nil hids
  obtain ⟨n, ids', rfl⟩ := List.exists_cons_of_ne_nil hids'
  rw [← before_cons 0x5f, paddedTraceId_renderTraceId hb, paddedTraceId_renderTraceId hb']
  exact before_segments h hb'

theorem captured_id {body : TraceForest} {entry : List Nat × (TraceAction ⊕ Selfdestruct)}
    (h : entry ∈ (body.listed [] 0).take maxInternalTracesPerTx) :
    entry.1 ≠ [] ∧ ∀ position ∈ entry.1, position < 10 ^ 10 := by
  obtain ⟨position, deeper, hid, -⟩ := Forest.mem_listed_form (List.mem_of_mem_take h)
  obtain ⟨k, hk, hentry⟩ := List.getElem_of_mem h
  rw [List.length_take] at hk
  rw [List.getElem_take] at hentry
  have hget : (body.listed [] 0)[k]? = some entry := by
    rw [List.getElem?_eq_getElem (by omega), hentry]
  refine ⟨by rw [hid]; exact List.cons_ne_nil _ _, fun position hposition => ?_⟩
  rcases Forest.position_le hget hposition with hnil | hle
  · exact absurd hnil List.not_mem_nil
  · have hfew : maxInternalTracesPerTx = 1024 := rfl
    omega

theorem keys_of_records {blockNumber : UInt64} {txIndex : UInt32} {body : TraceForest}
    {traces : InternalTraceSet} (h : Records blockNumber txIndex (body.listed [] 0) traces) :
    Numbered traces.items ∧
      (traces.items.map (fun item => paddedTraceId item.traceId)).Pairwise Before := by
  constructor
  · intro item hitem
    rw [h.items] at hitem
    obtain ⟨entry, hentry, rfl⟩ := List.mem_map.mp hitem
    obtain ⟨position, deeper, hid⟩ := List.exists_cons_of_ne_nil (captured_id hentry).1
    rw [traceId_recorded, hid]
    exact isTraceId_renderTraceId position deeper
  · rw [h.items, List.map_map, List.pairwise_map]
    refine List.Pairwise.imp_of_mem (fun {x y} hx hy hlt => ?_)
      ((Forest.listed_sorted [] 0 body).sublist (List.take_sublist _ _))
    rw [Function.comp_apply, Function.comp_apply, traceId_recorded, traceId_recorded]
    exact before_paddedTraceId (captured_id hx).1 (captured_id hy).1 (captured_id hx).2
      (captured_id hy).2 hlt

-- ordered by their sort keys, the traces of a transaction stand as they happened
theorem sort_keys_in_order (blockNumber : UInt64) (txIndex : UInt32) (root : TraceAction)
    (body : TraceForest) :
    ∃ i, (InternalTraceInspector.new blockNumber txIndex).inspectAll
        (Forest.node root body .nil).walk = some i ∧
      Numbered i.finish.items ∧
      (i.finish.items.map (fun item => paddedTraceId item.traceId)).Pairwise Before :=
  ⟨_, InternalTraceInspector.inspectAll_transaction blockNumber txIndex root body,
    keys_of_records (records_finish blockNumber txIndex body)⟩

end

section

variable {W : Type} {c : Crypto} {s : StableState W}

-- what the indexer makes of the four segments of a block is what the chain holds of the block
theorem exported_block_decoded {evm : Evm W} {allowed : StableState W → ChainOp → Prop} {world : W}
    (run : ChainRun c evm allowed (.init world) s) {b : Nat} {payloads : Nat → Bytes}
    (h : ∀ k < 4, SegmentOf c s b k (payloads k)) :
    ∃ block receipts txs, BlockPayloads.load s b = .ok ⟨block.toBytes, block.txIds⟩ ∧
      block.Minted b ∧ decodeBlockPayload (payloads 0) = .ok (blockInfoView block) ∧
      block.txIds.mapM (exportedReceipt s) = some receipts ∧
      decodeReceiptsPayload (payloads 1) = .ok (receiptsView (block.txIds.zip receipts)) ∧
      block.txIds.mapM (exportedTx c s) = some txs ∧
      decodeTxIndexPayload (payloads 2) = .ok txs ∧
      decodeInternalTracesPayload (payloads 3) =
        if Numbered (storedTraces (block.txIds.filterMap (exportedTraces s))) then
          .ok (tracesView (block.txIds.filterMap (exportedTraces s)))
        else .error invalidTraceId := by
  obtain ⟨p, hload, -⟩ := h 0 (by decide)
  obtain ⟨block, hblock, rfl⟩ := load_minted (minted_run run) hload
  have hslice : ∀ k < 4, (⟨block.toBytes, block.txIds⟩ : BlockPayloads).segmentSlice c s k =
      .ok (payloads k) := by
    intro k hk
    obtain ⟨q, hq, hdata⟩ := h k hk
    obtain rfl := Except.ok.inj (hload.symm.trans hq)
    exact hdata
  have hinfo : decodeBlockPayload (payloads 0) = .ok (blockInfoView block) := by
    rw [← Except.ok.inj (hslice 0 (by decide))]
    exact decodeBlockPayload_toBytes hblock.2.2
  obtain ⟨receipts, hreceipts, hall, hframes⟩ := buildReceiptsPayload_frames (hslice 1 (by decide))
  obtain ⟨txs, htxs, hindex⟩ := decodeTxIndexLoop_payload (hslice 2 (by decide)) [] (Nat.le_refl _)
  refine ⟨block, receipts, txs, hload, hblock, hinfo, hreceipts, ?_, htxs, hindex,
    decodeInternalTracesLoop_payload (hslice 3 (by decide)) [] (Nat.le_refl _)⟩
  rw [hframes]
  exact decodeReceiptsLoop_frames (block.txIds.zip receipts) [] hall (Nat.le_refl _)

end

deriving instance DecidableEq for BlockPayloads

def sampleBlock : BlockPayloads := (BlockPayloads.load sampleBlocks 1).toOption.getD ⟨[], []⟩

def sampleSegment (k : Nat) : Bytes :=
  (sampleBlock.segmentSlice sampleCrypto sampleBlocks k).toOption.getD []

theorem sampleBlock_segments : ∀ k < 4, SegmentOf sampleCrypto sampleBlocks 1 k (sampleSegment k) := by
  have hload : BlockPayloads.load sampleBlocks 1 = .ok sampleBlock := by decide +kernel
  intro k hk
  obtain rfl | rfl | rfl | rfl : k = 0 ∨ k = 1 ∨ k = 2 ∨ k = 3 := by omega
  · exact ⟨sampleBlock, hload, by decide +kernel⟩
  · exact ⟨sampleBlock, hload, by decide +kernel⟩
  · exact ⟨sampleBlock, hload, by decide +kernel⟩
  · exact ⟨sampleBlock, hload, by decide +kernel⟩

theorem exported_block_decoded_sample :
    ∃ block receipts txs, BlockPayloads.load sampleBlocks 1 = .ok ⟨block.toBytes, block.txIds⟩ ∧
      block.Minted 1 ∧ decodeBlockPayload (sampleSegment 0) = .ok (blockInfoView block) ∧
      block.txIds.mapM (exportedReceipt sampleBlocks) = some receipts ∧
      decodeReceiptsPayload (sampleSegment 1) = .ok (receiptsView (block.txIds.zip receipts)) ∧
      block.txIds.mapM (exportedTx sampleCrypto sampleBlocks) = some txs ∧
      decodeTxIndexPayload (sampleSegment 2) = .ok txs ∧
      decodeInternalTracesPayload (sampleSegment 3) =
        if Numbered (storedTraces (block.txIds.filterMap (exportedTraces sampleBlocks))) then
          .ok (tracesView (block.txIds.filterMap (exportedTraces sampleBlocks)))
        else .error invalidTraceId :=
  have chain : ChainRun sampleCrypto sampleEvm (fun _ _ => True) (.init ()) sampleBlocks :=
    run_produceSample (run_submitSample 2 (run_produceSample (run_submitSample 1 .start trivial)
      trivial) trivial) trivial
  exported_block_decoded chain sampleBlock_segments

end Kasane.Indexer
