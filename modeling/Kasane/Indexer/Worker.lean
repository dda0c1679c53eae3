import Kasane.Export.Blocks

namespace Kasane.Indexer

open BigEndian Codec
open Export (ExportChunk ExportCursor ExportResponse emittedBytes)

structure Pending where
  payloadParts : Nat → List Bytes
  payloadLens : Nat → Nat
  segment : Nat
  offset : Nat
  complete : Bool

def newPending (cursor : ExportCursor) : Pending :=
  ⟨fun _ => [], fun _ => 0, cursor.segment, cursor.byteOffset, false⟩

def newPendingFromChunk (chunk : ExportChunk) : Pending :=
  ⟨fun _ => [], fun _ => 0, chunk.segment, chunk.start, false⟩

def ensurePayloadLen (p : Pending) (len : Nat) : Except String (Nat × Pending) :=
  if p.segment ≤ 3 ∧ p.payloadLens p.segment = 0 then
    .ok (len, { p with payloadLens := Function.update p.payloadLens p.segment len })
  else if 3 < p.segment ∨ p.payloadLens p.segment ≠ len then .error "payload_len mismatch"
  else .ok (p.payloadLens p.segment, p)

def takeBytes (p : Pending) (bytes : Bytes) (payloadLen : Nat) : Except String Pending :=
  if bytes = [] then
    if p.offset ≠ payloadLen then .error "empty chunk before segment end" else .ok p
  else if p.offset + bytes.length > payloadLen then .error "chunk exceeds payload length"
  else .ok { p with
    payloadParts := Function.update p.payloadParts p.segment (p.payloadParts p.segment ++ [bytes])
    offset := p.offset + bytes.length }

def leaveSegment (p : Pending) (payloadLen : Nat) : Pending :=
  if p.offset = payloadLen then
    if p.segment = 3 then { p with complete := true }
    else { p with segment := p.segment + 1, offset := 0 }
  else p

def applyChunk (p : Pending) (chunk : ExportChunk) : Except String Pending :=
  if p.complete then .error "pending is already complete"
  else if chunk.segment ≠ p.segment then .error "chunk segment is out of order"
  else if chunk.start ≠ p.offset then .error "chunk start mismatch"
  else do
    let (payloadLen, p) ← ensurePayloadLen p chunk.payloadLen
    if chunk.start > payloadLen then .error "chunk start out of range"
    else
      let p ← takeBytes p chunk.bytes payloadLen
      pure (leaveSegment p payloadLen)

def bufferConcat (parts : List Bytes) (len : Nat) : Bytes :=
  (parts.flatten ++ List.replicate len 0).take len

def finalizePayload (p : Pending) (i : Nat) : Except String Bytes :=
  if p.payloadLens i = 0 then .ok []
  else if p.payloadParts i = [] then .error "missing payload parts"
  else .ok (bufferConcat (p.payloadParts i) (p.payloadLens i))

def finalizePayloads (p : Pending) : Except String (List Bytes) := do
  let block ← finalizePayload p 0
  let receipts ← finalizePayload p 1
  let txIndex ← finalizePayload p 2
  let internalTraces ← finalizePayload p 3
  pure [block, receipts, txIndex, internalTraces]

def maxSegment : Nat := 3

def enforceNextCursor (resp : ExportResponse) (next cursor : ExportCursor) : Except String Unit :=
  if next.segment > maxSegment then .error "next_cursor segment out of range"
  else
    match resp.chunks with
    | [] =>
        if next.blockNumber ≠ cursor.blockNumber then
          .error "next_cursor block_number mismatch on empty response"
        else .ok ()
    | chunk :: _ =>
        if chunk.segment ≠ cursor.segment ∨ chunk.start ≠ cursor.byteOffset then
          .error "cursor and first chunk mismatch"
        else if next.blockNumber < cursor.blockNumber then .error "next_cursor block_number regressed"
        else if next.blockNumber = cursor.blockNumber ∧ next.segment < cursor.segment then
          .error "next_cursor segment regressed"
        else if next.blockNumber = cursor.blockNumber ∧ next.segment = cursor.segment ∧
            next.byteOffset ≤ cursor.byteOffset then .error "next_cursor byte_offset did not advance"
        else .ok ()

def blockBaseLen (hasBeneficiary : Bool) : Nat :=
  8 + 32 + 32 + 8 + 8 + 8 + 8 + (if hasBeneficiary then 20 else 0) + 32 + 32 + 4

def tryDecodeBlockPayload (data : Bytes) (hasBeneficiary : Bool) : Option Nat :=
  let baseLen := blockBaseLen hasBeneficiary
  if data.length < baseLen then none
  else
    let txCount := decode ((data.drop (baseLen - 4)).take 4)
    if baseLen + txCount * 32 ≠ data.length then none else some (decode (data.take 8))

def decodeBlockNumber (payload : Bytes) : Except String Nat :=
  match tryDecodeBlockPayload payload true with
  | some number => .ok number
  | none =>
      match tryDecodeBlockPayload payload false with
      | some number => .ok number
      | none => .error "block payload length mismatch"

structure CommittedBlock where
  blockNumber : Nat
  payloads : List Bytes

structure StreamState where
  streamCursor : Option ExportCursor
  activePending : Option Pending
  committed : List CommittedBlock

def commitAt (x : StreamState) (number : Nat) (payloads : List Bytes) : StreamState where
  streamCursor := some ⟨number + 1, 0, 0⟩
  activePending := none
  committed := x.committed ++ [⟨number, payloads⟩]

-- decoding the receipts, transactions and traces and writing them to the database are left out
def commitActivePending (x : StreamState) : Except String StreamState :=
  match x.activePending with
  | none => .ok x
  | some p => do
      let payloads ← finalizePayloads p
      let number ← decodeBlockNumber (payloads.headD [])
      if x.streamCursor.any (fun cursor => decide (number ≠ cursor.blockNumber)) then
        .error "decoded block number mismatch"
      else pure (commitAt x number payloads)

def closesBlock (streamCursor : Option ExportCursor) (p : Pending) (chunk : ExportChunk) : Bool :=
  streamCursor.any (fun cursor => decide
    ((chunk.segment ≠ cursor.segment ∨ chunk.start ≠ cursor.byteOffset) ∧ p.payloadLens 0 > 0 ∧
      p.segment > 0 ∧ p.offset = 0 ∧ chunk.segment = 0 ∧ chunk.start = 0))

def checkPosition (streamCursor : Option ExportCursor) (isFirstChunk : Bool) (p : Pending)
    (chunk : ExportChunk) : Except String Unit :=
  match streamCursor with
  | some cursor =>
      if chunk.segment ≠ cursor.segment ∨ chunk.start ≠ cursor.byteOffset then
        .error "cursor and chunk stream mismatch"
      else .ok ()
  | none =>
      if isFirstChunk = true ∧ (chunk.segment ≠ p.segment ∨ chunk.start ≠ p.offset) then
        .error "initial chunk mismatch without cursor"
      else .ok ()

def openNextChunk (x : StreamState) : Option ExportChunk → Except String StreamState
  | none => .ok x
  | some next =>
      match x.streamCursor with
      | none => .error "missing stream cursor after commit"
      | some cursor => .ok { x with
          activePending := some (newPendingFromChunk next)
          streamCursor := some ⟨cursor.blockNumber, next.segment, next.start⟩ }

def consumeAt (isFirstChunk : Bool) (x : StreamState) (chunk : ExportChunk)
    (nextChunk : Option ExportChunk) : Except String StreamState := do
  let p := x.activePending.getD (newPendingFromChunk chunk)
  checkPosition x.streamCursor isFirstChunk p chunk
  let p ← applyChunk p chunk
  if p.complete then do
    let x ← commitActivePending { x with activePending := some p }
    openNextChunk x nextChunk
  else pure { x with
    activePending := some p
    streamCursor := x.streamCursor.map (fun cursor => ⟨cursor.blockNumber, p.segment, p.offset⟩) }

-- after the commit the stream stands where this chunk starts, so it is not closed a second time
def consumeChunk (isFirstChunk : Bool) (x : StreamState) (chunk : ExportChunk)
    (nextChunk : Option ExportChunk) : Except String StreamState :=
  let p := x.activePending.getD (newPendingFromChunk chunk)
  if closesBlock x.streamCursor p chunk then do
    let x ← commitActivePending { x with activePending := some { p with complete := true } }
    consumeAt isFirstChunk x chunk nextChunk
  else consumeAt isFirstChunk { x with activePending := some p } chunk nextChunk

def consumeChunks (isFirstChunk : Bool) (x : StreamState) :
    List ExportChunk → Except String StreamState
  | [] => .ok x
  | chunk :: rest => do
      let x ← consumeChunk isFirstChunk x chunk rest.head?
      consumeChunks false x rest

def closesTail (x : StreamState) (finalCursor : ExportCursor) : Bool :=
  match x.streamCursor, x.activePending with
  | some cursor, some p => decide (p.complete = false ∧ p.payloadLens 0 > 0 ∧ p.segment > 0 ∧
      p.offset = 0 ∧ finalCursor = ⟨cursor.blockNumber + 1, 0, 0⟩)
  | _, _ => false

def finishResponse (x : StreamState) (finalCursor : ExportCursor) : Except String StreamState := do
  let x ← if closesTail x finalCursor then
      commitActivePending { x with
        activePending := x.activePending.map (fun p => { p with complete := true }) }
    else .ok x
  match x.streamCursor with
  | none => .error "unable to establish consumed stream cursor without initial cursor"
  | some cursor =>
      if cursor ≠ finalCursor then .error "response next_cursor does not match consumed chunk stream"
      else pure x

structure WorkerState where
  cursor : Option ExportCursor
  pending : Option Pending
  committed : List CommittedBlock

def startPending (w : WorkerState) (first : ExportChunk) : Pending :=
  w.pending.getD (match w.cursor with
    | some cursor => newPending cursor
    | none => newPendingFromChunk first)

def enforceCursor (resp : ExportResponse) (next : ExportCursor) : Option ExportCursor →
    Except String Unit
  | none => .ok ()
  | some cursor => enforceNextCursor resp next cursor

def handleResponse (maxBytes : Nat) (w : WorkerState) (resp : ExportResponse) :
    Except String WorkerState :=
  match resp.chunks with
  | [] => .ok w
  | first :: rest =>
      if emittedBytes resp.chunks > maxBytes then .error "chunk bytes exceed max_bytes"
      else
        match resp.nextCursor with
        | none => .error "missing next_cursor"
        | some finalCursor => do
            enforceCursor resp finalCursor w.cursor
            let x ← consumeChunks true ⟨w.cursor, some (startPending w first), w.committed⟩
              (first :: rest)
            let x ← finishResponse x finalCursor
            pure ⟨some finalCursor, x.activePending, x.committed⟩

end Kasane.Indexer
