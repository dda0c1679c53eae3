import Kasane.Export.Payloads

namespace Kasane.Export

open BigEndian Codec Word Chain

def maxExportBytes : Nat := 1500000

def maxExportBlocks : Nat := 64

structure ExportCursor where
  blockNumber : Nat
  segment : Nat
  byteOffset : Nat
deriving DecidableEq, Repr

structure ExportChunk where
  segment : Nat
  start : Nat
  bytes : Bytes
  payloadLen : Nat
deriving DecidableEq

structure ExportResponse where
  chunks : List ExportChunk
  nextCursor : Option ExportCursor
deriving DecidableEq

variable {W : Type} (c : Crypto) (s : StableState W)

structure SegmentLoop where
  chunks : List ExportChunk
  remaining : Nat
  seg : Nat
  offset : Nat
  isFirst : Bool
  blockStarted : Bool

def SegmentLoop.marker (x : SegmentLoop) (payloadLen : Nat) : SegmentLoop :=
  if x.isFirst then
    { x with
      chunks := x.chunks ++ [⟨x.seg, x.offset, [], payloadLen⟩]
      isFirst := false
      blockStarted := true }
  else x

def SegmentLoop.emit (x : SegmentLoop) (payload : Bytes) (take payloadLen : Nat) : SegmentLoop where
  chunks := x.chunks ++ [⟨x.seg, x.offset, (payload.drop x.offset).take take, payloadLen⟩]
  remaining := x.remaining - take
  seg := x.seg
  offset := x.offset + take
  isFirst := false
  blockStarted := true

-- every pass but the last leaves its segment, so one pass for each segment is enough fuel
def exportSegments (p : BlockPayloads) : Nat → SegmentLoop → Except ExportError SegmentLoop
  | 0, x => .ok x
  | fuel + 1, x =>
      if x.remaining = 0 ∨ x.seg > 3 then .ok x
      else do
        let payloadLen ← p.segmentLen c s x.seg
        if x.offset > payloadLen then .error (.invalidCursor "offset out of range")
        else if x.offset = payloadLen then
          let x := x.marker payloadLen
          if x.seg = 3 then .ok x
          else exportSegments p fuel { x with seg := x.seg + 1, offset := 0 }
        else
          let available := payloadLen - x.offset
          let take := if available > x.remaining then x.remaining else available
          let payload ← p.segmentSlice c s x.seg
          let x := x.emit payload take payloadLen
          if x.offset = payloadLen then
            if x.seg = 3 then .ok x
            else exportSegments p fuel { x with seg := x.seg + 1, offset := 0 }
          else exportSegments p fuel x

def isBlockDone (p : BlockPayloads) (y : SegmentLoop) : Except ExportError Bool :=
  if y.seg = 3 then (p.segmentLen c s 3).map (fun len => decide (y.offset = len)) else .ok false

structure BlockLoop where
  chunks : List ExportChunk
  remaining : Nat
  seg : Nat
  offset : Nat
  blockNumber : Nat
  blocksEmitted : Nat

-- no chain reaches block `u64::MAX`, where the saturating increment of the source would stop
def BlockLoop.nextBlock (x : BlockLoop) : BlockLoop :=
  { x with blockNumber := x.blockNumber + 1, seg := 0, offset := 0 }

-- every pass emits a block, so `maxExportBlocks` passes are enough fuel
def exportFrom (head : Nat) (prunedBefore : Option Nat) :
    Nat → BlockLoop → Except ExportError BlockLoop
  | 0, x => .ok x
  | fuel + 1, x =>
      if x.remaining = 0 ∨ x.blocksEmitted ≥ maxExportBlocks then .ok x
      else if x.blockNumber > head then .ok x
      else
        match prunedBefore.filter (fun pruned => decide (x.blockNumber ≤ pruned)) with
        | some pruned => .error (.pruned pruned)
        | none =>
            if x.seg > 3 then .error (.invalidCursor "segment out of range")
            else do
              let p ← BlockPayloads.load s x.blockNumber
              let segmentLen ← p.segmentLen c s x.seg
              if x.offset > segmentLen then .error (.invalidCursor "byte_offset out of range")
              else
                let y ← exportSegments c s p 4 ⟨x.chunks, x.remaining, x.seg, x.offset, true, false⟩
                let blocksEmitted := if y.blockStarted then x.blocksEmitted + 1 else x.blocksEmitted
                let blockDone ← isBlockDone c s p y
                let x : BlockLoop :=
                  ⟨y.chunks, y.remaining, y.seg, y.offset, x.blockNumber, blocksEmitted⟩
                if y.remaining = 0 ∨ blockDone = false then .ok x
                else if blocksEmitted ≥ maxExportBlocks then .ok x.nextBlock
                else exportFrom head prunedBefore fuel x.nextBlock

def emittedBytes (chunks : List ExportChunk) : Nat := (chunks.map (fun chunk => chunk.bytes.length)).sum

def startCursor : ExportCursor where
  blockNumber :=
    match s.pruneState.prunedBefore with
    | some value => saturatingAdd u64Max value 1
    | none => 0
  segment := 0
  byteOffset := 0

def exportBlocks (cursor : Option ExportCursor) (maxBytes : Nat) :
    Except ExportError ExportResponse :=
  if maxBytes = 0 then .error .limit
  else
    let maxBytes := if maxBytes > maxExportBytes then maxExportBytes else maxBytes
    let head := s.head.number
    let prunedBefore := s.pruneState.prunedBefore
    let cursor := cursor.getD (startCursor s)
    match prunedBefore.filter (fun pruned => decide (cursor.blockNumber ≤ pruned)) with
    | some pruned => .error (.pruned pruned)
    | none =>
        if cursor.segment > 3 then .error (.invalidCursor "segment out of range")
        else if cursor.blockNumber > head then .ok ⟨[], some cursor⟩
        else do
          let x ← exportFrom c s head prunedBefore maxExportBlocks
            ⟨[], maxBytes, cursor.segment, cursor.byteOffset, cursor.blockNumber, 0⟩
          if emittedBytes x.chunks = 0 then .error .limit
          else pure ⟨x.chunks, some ⟨x.blockNumber, x.seg, x.offset⟩⟩

end Kasane.Export
