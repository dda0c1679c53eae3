import Kasane.Codec.Decode
import Kasane.Receipt.Codec

namespace Kasane.Export

open BigEndian Codec

def maxInternalTracesPerTx : Nat := 1024

def maxTraceIdLen : Nat := 64

def maxErrorCodeLen : Nat := 96

def internalTracesMagic : Bytes := [0x69, 0x74, 0x72, 0x61, 0x63, 0x65, 0x30, 0x31]

def internalTracesMaxSize : Nat :=
  4 + 8 + 1 + 1 + 4 + 4 + 4 + maxInternalTracesPerTx * (8 + 4 + 2 + maxTraceIdLen + 2 + 1 + 20 + 1 +
    20 + 32 + 1 + 20 + 1 + 2 + maxErrorCodeLen)

inductive InternalTraceActionKind where
  | call
  | callCode
  | delegateCall
  | staticCall
  | create
  | create2
  | custom
  | selfdestruct
deriving DecidableEq, Repr

def InternalTraceActionKind.toU8 : InternalTraceActionKind → UInt8
  | .call => 1
  | .callCode => 2
  | .delegateCall => 3
  | .staticCall => 4
  | .create => 5
  | .create2 => 6
  | .custom => 7
  | .selfdestruct => 8

def InternalTraceActionKind.fromU8 : UInt8 → Option InternalTraceActionKind
  | 1 => some .call
  | 2 => some .callCode
  | 3 => some .delegateCall
  | 4 => some .staticCall
  | 5 => some .create
  | 6 => some .create2
  | 7 => some .custom
  | 8 => some .selfdestruct
  | _ => none

-- a Rust string is kept as its UTF-8 bytes
def isUtf8 (bytes : Bytes) : Bool := (String.fromUTF8? ⟨bytes.toArray⟩).isSome

structure InternalTrace where
  blockNumber : UInt64
  txIndex : UInt32
  traceId : Bytes
  depth : UInt16
  actionKind : InternalTraceActionKind
  fromAddress : ByteArr 20
  toAddress : Option (ByteArr 20)
  value : ByteArr 32
  createdContractAddress : Option (ByteArr 20)
  success : Bool
  errorCode : Option Bytes
deriving DecidableEq

structure InternalTraceSet where
  items : List InternalTrace
  encodeFailed : Bool
  capturedCount : UInt32
  totalCount : UInt32
  truncated : Bool
deriving DecidableEq

def InternalTraceSet.empty : InternalTraceSet := ⟨[], false, 0, 0, false⟩

def readFlag : Reader Bool := fun data => do
  let (raw, data) ← readU8 data
  if raw > 1 then none else pure (decide (raw = 1), data)

def readText (maxLen : Nat) : Reader Bytes := fun data => do
  let (len, data) ← readU16 data
  if len.toNat > maxLen then none
  else
    let (bytes, data) ← readVec len.toNat data
    if isUtf8 bytes = false then none else pure (bytes, data)

def readOptionalAddress : Reader (Option (ByteArr 20)) := fun data => do
  let (present, data) ← readU8 data
  if present = 0 then pure (none, data)
  else
    let (value, data) ← readArray 20 data
    pure (some value, data)

def readInternalTrace : Reader InternalTrace := fun data => do
  let (blockNumber, data) ← readU64 data
  let (txIndex, data) ← readU32 data
  let (traceId, data) ← readText maxTraceIdLen data
  let (depth, data) ← readU16 data
  let (actionRaw, data) ← readU8 data
  let actionKind ← InternalTraceActionKind.fromU8 actionRaw
  let (fromAddress, data) ← readArray 20 data
  let (toAddress, data) ← readOptionalAddress data
  let (value, data) ← readArray 32 data
  let (createdContractAddress, data) ← readOptionalAddress data
  let (success, data) ← readFlag data
  let (errorCode, data) ← readText maxErrorCodeLen data
  pure (⟨blockNumber, txIndex, traceId, depth, actionKind, fromAddress, toAddress, value,
    createdContractAddress, success, if errorCode = [] then none else some errorCode⟩, data)

def readInternalTraces : Nat → Reader (List InternalTrace)
  | 0, data => some ([], data)
  | n + 1, data => do
      let (item, data) ← readInternalTrace data
      let (items, data) ← readInternalTraces n data
      pure (item :: items, data)

def invalidCounts (encodeFailed truncated : Bool) (capturedCount totalCount count : UInt32) : Bool :=
  decide (count.toNat > maxInternalTracesPerTx ∨ capturedCount ≠ count ∨ totalCount < capturedCount ∨
    (encodeFailed = false ∧ truncated ≠ decide (totalCount > capturedCount)) ∨
    (encodeFailed = true ∧ (capturedCount ≠ 0 ∨ count ≠ 0 ∨ truncated = true)))

def decodeInternalTraces (data : Bytes) : Option InternalTraceSet := do
  let (magic, data) ← readExact internalTracesMagic.length data
  if magic ≠ internalTracesMagic then none
  else
    let (encodeFailed, data) ← readFlag data
    let (truncated, data) ← readFlag data
    let (capturedCount, data) ← readU32 data
    let (totalCount, data) ← readU32 data
    let (count, data) ← readU32 data
    if invalidCounts encodeFailed truncated capturedCount totalCount count then none
    else
      let (items, _) ← readInternalTraces count.toNat data
      pure ⟨items, encodeFailed, capturedCount, totalCount, truncated⟩

def InternalTraceSet.fromBytes (data : Bytes) : InternalTraceSet :=
  if data.length > internalTracesMaxSize then .empty
  else (decodeInternalTraces data).getD .empty

theorem length_readInternalTraces {n : Nat} {data rest : Bytes} {items : List InternalTrace}
    (h : readInternalTraces n data = some (items, rest)) : items.length = n := by
  induction n generalizing data rest items with
  | zero =>
      obtain ⟨rfl, -⟩ := Prod.mk.inj (Option.some.inj h)
      rfl
  | succ n ih =>
      rw [readInternalTraces] at h
      obtain ⟨⟨item, data'⟩, -, h⟩ := Option.bind_eq_some_iff.mp h
      obtain ⟨⟨tail, data''⟩, htail, h⟩ := Option.bind_eq_some_iff.mp h
      obtain ⟨rfl, -⟩ := Prod.mk.inj (Option.some.inj h)
      rw [List.length_cons, ih htail]

end Kasane.Export
