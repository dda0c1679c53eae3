import Kasane.Chain.State
import Kasane.Export.InternalTrace

namespace Kasane.Export

open BigEndian Codec Word Chain

inductive ExportError where
  | invalidCursor (reason : String)
  | pruned (prunedBeforeBlock : Nat)
  | missingData (reason : String)
  | limit
deriving DecidableEq, Repr

def maxSegmentLen : Nat := 8 * 1024 * 1024

structure TxIndexEntry where
  blockNumber : UInt64
  txIndex : UInt32
deriving DecidableEq

def TxIndexEntry.toBytes (entry : TxIndexEntry) : Bytes :=
  u64Bytes entry.blockNumber ++ u32Bytes entry.txIndex

def TxIndexEntry.fromBytes (data : Bytes) : TxIndexEntry :=
  if data.length ≠ 12 then ⟨0, 0⟩
  else ⟨UInt64.ofNat (decode (data.take 8)), UInt32.ofNat (decode (data.drop 8))⟩

structure DecodedTxView where
  sender : Address
  dest : Option Address
  input : Bytes
deriving DecidableEq

def decodeTxView (c : Crypto) (kind : TxKind) (caller : Address) (bytes : Bytes) :
    Option DecodedTxView :=
  match kind with
  | .icSynthetic =>
      (decodeIcSyntheticHeader bytes).map (fun header => ⟨caller, header.dest, header.data⟩)
  | .ethSigned => (decodeEthRawTx c bytes).map (fun tx => ⟨tx.caller, tx.kind, tx.data⟩)

def orError {A : Type} (e : ExportError) : Option A → Except ExportError A
  | some a => .ok a
  | none => .error e

def orMissing {A : Type} (reason : String) : Option A → Except ExportError A :=
  orError (.missingData reason)

variable {W : Type} (c : Crypto) (s : StableState W)

def readBlob (reason : String) (ptr : Blob.BlobPtr) : Except ExportError Bytes :=
  match s.blobStore.read ptr with
  | .ok bytes => .ok bytes
  | .error _ => .error (.missingData reason)

def receiptEntry (id : TxId) : Except ExportError Bytes := do
  let ptr ← orMissing "receipt missing" (s.receipts.get id)
  let bytes ← readBlob s "receipt bytes missing" ptr
  let receipt := Receipt.fromBytes bytes
  if receipt.txId ≠ id ∨ receipt.txId = zeroArr 32 then .error (.missingData "receipt decode failed")
  else
    let encoded := Receipt.toBytes receipt
    let len ← orError (.invalidCursor "receipt too large") (u32TryFrom encoded.length)
    pure (id.toList ++ (u32Bytes len ++ encoded))

def buildReceiptsPayload : List TxId → Except ExportError Bytes
  | [] => .ok []
  | id :: ids => do
      let entry ← receiptEntry s id
      let rest ← buildReceiptsPayload ids
      pure (entry ++ rest)

def txCaller (stored : StoredTx) : Except ExportError Address :=
  match stored.callerEvm with
  | some value => .ok value
  | none => if stored.kind = .ethSigned then .ok (zeroArr 20) else .error (.missingData "tx caller missing")

def txIndexTail (stored : StoredTx) (decoded : DecodedTxView) : Bytes :=
  let dest := (decoded.dest.map List.Vector.toList).getD []
  let selector := if decoded.input.length ≥ 4 then decoded.input.take 4 else []
  let ethHash := if stored.kind = .ethSigned then (c.keccak256 stored.raw).toList else []
  decoded.sender.toList ++ (UInt8.ofNat dest.length :: (dest ++
    (UInt8.ofNat selector.length :: (selector ++ (UInt8.ofNat ethHash.length :: ethHash)))))

def txIndexEntry (id : TxId) : Except ExportError Bytes := do
  let ptr ← orMissing "tx_index missing" (s.txIndex.get id)
  let bytes ← readBlob s "tx_index bytes missing" ptr
  let entry := TxIndexEntry.fromBytes bytes
  if entry = ⟨0, 0⟩ then .error (.missingData "tx_index decode failed")
  else
    let stored ← orMissing "tx_store missing" (((s.txStore.get id).filter (fun envelope =>
      decide (envelope.raw ≠ [] ∧ envelope.version = storedTxVersion))).bind (fun envelope =>
        (StoredTx.tryFrom c envelope).toOption))
    let caller ← txCaller stored
    let decoded ← orMissing "tx decode failed" (decodeTxView c stored.kind caller stored.raw)
    let principal := stored.callerPrincipal.bytes
    let principalLen ← orError (.invalidCursor "principal too large") (u16TryFrom principal.length)
    let tail := txIndexTail c stored decoded
    let len ← orError (.invalidCursor "tx_index too large")
      (u32TryFrom (entry.toBytes.length + 2 + principal.length + tail.length))
    pure (id.toList ++ (u32Bytes len ++ (entry.toBytes ++ (u16Bytes principalLen ++
      (principal ++ tail)))))

def buildTxIndexPayload : List TxId → Except ExportError Bytes
  | [] => .ok []
  | id :: ids => do
      let entry ← txIndexEntry c s id
      let rest ← buildTxIndexPayload ids
      pure (entry ++ rest)

def encodeOptionalAddress : Option (ByteArr 20) → Bytes
  | some value => 1 :: value.toList
  | none => [0]

def encodeInternalTrace (item : InternalTrace) : Except ExportError Bytes := do
  let traceIdLen ← orError (.invalidCursor "trace_id too large") (u16TryFrom item.traceId.length)
  let errorCode := item.errorCode.getD []
  let errorLen ← orError (.invalidCursor "trace error too large") (u16TryFrom errorCode.length)
  pure (u64Bytes item.blockNumber ++ (u32Bytes item.txIndex ++ (u16Bytes traceIdLen ++
    (item.traceId ++ (u16Bytes item.depth ++ (item.actionKind.toU8 :: (item.fromAddress.toList ++
      (encodeOptionalAddress item.toAddress ++ (item.value.toList ++
        (encodeOptionalAddress item.createdContractAddress ++
          ((if item.success then 1 else 0) :: (u16Bytes errorLen ++ errorCode))))))))))))

def encodeInternalTraceItems : List InternalTrace → Except ExportError Bytes
  | [] => .ok []
  | item :: items => do
      let entry ← encodeInternalTrace item
      let rest ← encodeInternalTraceItems items
      pure (entry ++ rest)

def encodeInternalTraceEntries (traces : InternalTraceSet) : Except ExportError Bytes := do
  let count ← orError (.invalidCursor "internal_traces too large") (u32TryFrom traces.items.length)
  if traces.capturedCount ≠ count ∨ traces.totalCount < traces.capturedCount then
    .error (.invalidCursor "internal_traces metadata mismatch")
  else
    let items ← encodeInternalTraceItems traces.items
    pure (3 :: (if traces.encodeFailed then 1 else 0) :: (if traces.truncated then 1 else 0) ::
      (u32Bytes traces.capturedCount ++ (u32Bytes traces.totalCount ++ (u32Bytes count ++ items))))

def internalTraceEntry (id : TxId) : Except ExportError Bytes :=
  match s.internalTraces.get id with
  | none => .ok []
  | some ptr => do
      let bytes ← readBlob s "internal_traces bytes missing" ptr
      let encoded ← encodeInternalTraceEntries (.fromBytes bytes)
      let len ← orError (.invalidCursor "internal_traces too large") (u32TryFrom encoded.length)
      pure (id.toList ++ (u32Bytes len ++ encoded))

def buildInternalTracesPayload : List TxId → Except ExportError Bytes
  | [] => .ok []
  | id :: ids => do
      let entry ← internalTraceEntry s id
      let rest ← buildInternalTracesPayload ids
      pure (entry ++ rest)

def segmentTooLarge : Nat → String
  | 0 => "block too large"
  | 1 => "receipts too large"
  | 2 => "tx_index too large"
  | _ => "internal_traces too large"

def checkedSegmentLen (payloadLen segment : Nat) : Except ExportError Nat :=
  if segment > 3 then .error (.invalidCursor "segment out of range")
  else if payloadLen > u32Max then .error (.invalidCursor (segmentTooLarge segment))
  else if payloadLen > maxSegmentLen then .error (.invalidCursor "segment too large")
  else .ok payloadLen

structure BlockPayloads where
  blockPayload : Bytes
  txIds : List TxId

namespace BlockPayloads

def load (blockNumber : Nat) : Except ExportError BlockPayloads := do
  let ptr ← orMissing "block missing" (s.blocks.get blockNumber)
  let bytes ← readBlob s "block bytes missing" ptr
  let _ ← checkedSegmentLen bytes.length 0
  pure ⟨bytes, (BlockData.fromBytes bytes).txIds⟩

-- the payload cache of the source is left out: one call reads one unchanging state
def segmentSlice (p : BlockPayloads) : Nat → Except ExportError Bytes
  | 0 => .ok p.blockPayload
  | 1 => buildReceiptsPayload s p.txIds
  | 2 => buildTxIndexPayload c s p.txIds
  | 3 => buildInternalTracesPayload s p.txIds
  | _ => .error (.invalidCursor "segment out of range")

def segmentLen (p : BlockPayloads) (segment : Nat) : Except ExportError Nat := do
  let payload ← p.segmentSlice c s segment
  checkedSegmentLen payload.length segment

end BlockPayloads

end Kasane.Export
