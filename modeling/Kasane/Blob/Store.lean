import Kasane.Lib.BigEndian
import Kasane.Lib.OrdMap
import Kasane.Lib.Word
import Mathlib.Data.Prod.Lex
import Mathlib.Tactic.SplitIfs

namespace Kasane.Blob

open BigEndian Word

inductive SizeClassError where
  | zeroLength
  | tooLarge
deriving DecidableEq, Repr

def class8K : Nat := 8 * 1024

def class4M : Nat := 4 * 1024 * 1024

def classes : List Nat :=
  [class8K, 16 * 1024, 32 * 1024, 64 * 1024, 128 * 1024, 256 * 1024, 512 * 1024, 1024 * 1024,
    2 * 1024 * 1024, class4M]

def smallestClass (len : Nat) : Except SizeClassError Nat :=
  if len = 0 then .error .zeroLength
  else if len ≥ 2 ^ 32 then .error .tooLarge
  else
    match classes.find? (fun cls => decide (len ≤ cls)) with
    | some cls => .ok cls
    | none => .error .tooLarge

inductive BlobState where
  | used
  | quarantine
  | free
deriving DecidableEq, Repr

structure AllocKey where
  cls : Nat
  offset : Nat
deriving DecidableEq, Repr

instance : LinearOrder AllocKey :=
  LinearOrder.lift' (fun k => toLex (k.cls, k.offset)) (by
    rintro ⟨a, b⟩ ⟨c, d⟩ h
    simpa using h)

structure AllocEntry where
  gen : Nat
  state : BlobState
deriving DecidableEq, Repr

structure BlobPtr where
  offset : Nat
  len : Nat
  cls : Nat
  gen : Nat
deriving DecidableEq, Repr

def BlobPtr.key (ptr : BlobPtr) : AllocKey := ⟨ptr.cls, ptr.offset⟩

inductive BlobError where
  | sizeClass (e : SizeClassError)
  | lengthTooLarge
  | overflow
  | growFailed
  | missingAllocEntry
  | invalidState
  | invalidPointer
  | lengthMismatch
  | duplicateFree
deriving DecidableEq, Repr

structure BlobUsageStats where
  usedClassBytes : Nat
  quarantineClassBytes : Nat
  freeClassBytes : Nat
  arenaEndBytes : Nat
deriving DecidableEq, Repr

structure BlobStore where
  arena : Nat → UInt8
  arenaPages : Nat
  arenaEnd : Nat
  allocTable : OrdMap AllocKey AllocEntry
  freeListByClass : OrdMap AllocKey Unit
  usageTotals : BlobUsageStats

def wasmPageSize : Nat := 65536

def checkedAdd (max a b : Nat) : Except BlobError Nat :=
  if a + b ≤ max then .ok (a + b) else .error .overflow

def pagesRequired (endOffset : Nat) : Except BlobError Nat :=
  if endOffset = 0 then .ok 0
  else (checkedAdd u64Max endOffset (wasmPageSize - 1)).map (· / wasmPageSize)

namespace BlobStore

def empty : BlobStore where
  arena := fun _ => 0
  arenaPages := 0
  arenaEnd := 0
  allocTable := .empty
  freeListByClass := .empty
  usageTotals := ⟨0, 0, 0, 0⟩

def ensureCapacity (grow : Nat → Bool) (s : BlobStore) (endOffset : Nat) :
    Except BlobError BlobStore := do
  let required ← pagesRequired endOffset
  if required > s.arenaPages then
    if grow (required - s.arenaPages) then .ok { s with arenaPages := required }
    else .error .growFailed
  else .ok s

def inClass (cls : Nat) (key : AllocKey) : Bool :=
  decide (key.cls = cls) && decide (key.offset ≤ u64Max)

def popFree (s : BlobStore) (cls : Nat) : Option Nat × BlobStore :=
  match s.freeListByClass.entries.find? (fun e => inClass cls e.1) with
  | some (key, _) =>
      (some key.offset, { s with freeListByClass := s.freeListByClass.remove key })
  | none =>
      let scan := s.allocTable.entries.filter (fun e => inClass cls e.1)
      ((scan.find? (fun e => decide (e.2.state = .free))).map (fun e => e.1.offset), s)

def currentGen (s : BlobStore) (cls offset : Nat) : Except BlobError Nat :=
  match s.allocTable.get ⟨cls, offset⟩ with
  | some entry => .ok entry.gen
  | none => .error .missingAllocEntry

def reuse (s : BlobStore) (cls offset : Nat) : Except BlobError BlobStore :=
  match s.allocTable.get ⟨cls, offset⟩ with
  | none => .error .missingAllocEntry
  | some entry =>
      if entry.state ≠ .free then .error .invalidState
      else do
        let gen ← checkedAdd u32Max entry.gen 1
        .ok { s with
          allocTable := s.allocTable.insert ⟨cls, offset⟩ ⟨gen, .used⟩
          usageTotals := { s.usageTotals with
            freeClassBytes := s.usageTotals.freeClassBytes - cls
            usedClassBytes := saturatingAdd u64Max s.usageTotals.usedClassBytes cls } }

def extend (grow : Nat → Bool) (s : BlobStore) (cls : Nat) : Except BlobError BlobStore := do
  let newEnd ← checkedAdd u64Max s.arenaEnd cls
  let s ← s.ensureCapacity grow newEnd
  .ok { s with
    arenaEnd := newEnd
    allocTable := s.allocTable.insert ⟨cls, s.arenaEnd⟩ ⟨1, .used⟩
    usageTotals := { s.usageTotals with
      usedClassBytes := saturatingAdd u64Max s.usageTotals.usedClassBytes cls
      arenaEndBytes := newEnd } }

def ptrAt (s : BlobStore) (cls offset len : Nat) : Except BlobError BlobPtr := do
  let gen ← s.currentGen cls offset
  .ok ⟨offset, len, cls, gen⟩

def allocate (grow : Nat → Bool) (s : BlobStore) (len : Nat) :
    Except BlobError BlobPtr × BlobStore :=
  match smallestClass len with
  | .error e => (.error (.sizeClass e), s)
  | .ok cls =>
      if len ≥ 2 ^ 32 then (.error .lengthTooLarge, s)
      else
        match s.popFree cls with
        | (some offset, s) =>
            match s.reuse cls offset with
            | .error e => (.error e, s)
            | .ok s => (s.ptrAt cls offset len, s)
        | (none, s) =>
            match s.extend grow cls with
            | .error e => (.error e, s)
            | .ok s' => (s'.ptrAt cls s.arenaEnd len, s')

def writeArena (arena : Nat → UInt8) (offset : Nat) (data : Bytes) : Nat → UInt8 := fun i =>
  if offset ≤ i then (data[i - offset]?).getD (arena i) else arena i

def readArena (arena : Nat → UInt8) (offset len : Nat) : Bytes :=
  (List.range len).map (fun i => arena (offset + i))

def write (grow : Nat → Bool) (s : BlobStore) (ptr : BlobPtr) (data : Bytes) :
    Except BlobError BlobStore :=
  if data.length ≠ ptr.len then .error .lengthMismatch
  else
    match s.allocTable.get ptr.key with
    | none => .error .missingAllocEntry
    | some entry =>
        if entry.gen ≠ ptr.gen ∨ entry.state ≠ .used then .error .invalidState
        else do
          let endOffset ← checkedAdd u64Max ptr.offset ptr.cls
          let s ← s.ensureCapacity grow endOffset
          .ok { s with arena := writeArena s.arena ptr.offset data }

def storeBytes (grow : Nat → Bool) (s : BlobStore) (data : Bytes) :
    Except BlobError BlobPtr × BlobStore :=
  match s.allocate grow data.length with
  | (.error e, s) => (.error e, s)
  | (.ok ptr, s) =>
      match s.write grow ptr data with
      | .error e => (.error e, s)
      | .ok s => (.ok ptr, s)

def read (s : BlobStore) (ptr : BlobPtr) : Except BlobError Bytes :=
  match s.allocTable.get ptr.key with
  | none => .error .missingAllocEntry
  | some entry =>
      if entry.gen ≠ ptr.gen then .error .invalidPointer
      else if entry.state = .free then .error .invalidState
      else do
        let endOffset ← checkedAdd u64Max ptr.offset ptr.len
        if endOffset > s.arenaEnd then .error .invalidPointer
        else .ok (readArena s.arena ptr.offset ptr.len)

def markQuarantine (s : BlobStore) (ptr : BlobPtr) : Except BlobError BlobStore :=
  match s.allocTable.get ptr.key with
  | none => .error .missingAllocEntry
  | some entry =>
      if entry.gen ≠ ptr.gen then .error .invalidPointer
      else if entry.state = .quarantine then .ok s
      else if entry.state ≠ .used then .error .invalidState
      else .ok { s with
        allocTable := s.allocTable.insert ptr.key { entry with state := .quarantine }
        usageTotals := { s.usageTotals with
          usedClassBytes := s.usageTotals.usedClassBytes - ptr.cls
          quarantineClassBytes :=
            saturatingAdd u64Max s.usageTotals.quarantineClassBytes ptr.cls } }

def markFree (s : BlobStore) (ptr : BlobPtr) : Except BlobError BlobStore :=
  match s.allocTable.get ptr.key with
  | none => .error .missingAllocEntry
  | some entry =>
      if entry.gen ≠ ptr.gen then .error .invalidPointer
      else if entry.state = .free then .ok s
      else if entry.state ≠ .quarantine then .error .invalidState
      else if (s.freeListByClass.get ptr.key).isSome then .error .duplicateFree
      else .ok { s with
        allocTable := s.allocTable.insert ptr.key { entry with state := .free }
        freeListByClass := s.freeListByClass.insert ptr.key ()
        usageTotals := { s.usageTotals with
          quarantineClassBytes := s.usageTotals.quarantineClassBytes - ptr.cls
          freeClassBytes := saturatingAdd u64Max s.usageTotals.freeClassBytes ptr.cls } }

def releaseTotals (state : BlobState) (cls : Nat) (t : BlobUsageStats) : BlobUsageStats :=
  match state with
  | .used => { t with usedClassBytes := t.usedClassBytes - cls }
  | .quarantine => { t with quarantineClassBytes := t.quarantineClassBytes - cls }
  | .free => t

def reclaimForPrune (s : BlobStore) (ptr : BlobPtr) : Except BlobError BlobStore :=
  match s.allocTable.get ptr.key with
  | none => .error .missingAllocEntry
  | some entry =>
      if entry.gen ≠ ptr.gen then .error .invalidPointer
      else if entry.state = .free then .ok s
      else if entry.state ≠ .quarantine ∧ entry.state ≠ .used then .error .invalidState
      else
        let totals := releaseTotals entry.state ptr.cls s.usageTotals
        .ok { s with
          allocTable := s.allocTable.insert ptr.key { entry with state := .free }
          usageTotals := { totals with
            freeClassBytes := saturatingAdd u64Max totals.freeClassBytes ptr.cls } }

end BlobStore

end Kasane.Blob
