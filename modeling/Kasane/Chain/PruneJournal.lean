import Kasane.Chain.PruneSteps

namespace Kasane.Chain

open BigEndian Codec Word Blob

def blobPtrBytes (ptr : BlobPtr) : Bytes :=
  encode 8 ptr.offset ++ (encode 4 ptr.len ++ (encode 4 ptr.cls ++ encode 4 ptr.gen))

structure PruneJournal where
  ptrs : List BlobPtr
deriving DecidableEq

def journalMaxSize : Nat := 4 + maxPtrs * 20

def encodeFallbackPruneJournal : Bytes :=
  match encodeGuarded (u32Bytes 0) journalMaxSize with
  | .ok value => value
  | .error _ => List.replicate journalMaxSize 0

def PruneJournal.toBytes (journal : PruneJournal) : Bytes :=
  match u32TryFrom journal.ptrs.length with
  | none => encodeFallbackPruneJournal
  | some len =>
      if len.toNat > maxPtrs then encodeFallbackPruneJournal
      else
        match encodeGuarded (u32Bytes len ++ journal.ptrs.flatMap blobPtrBytes) journalMaxSize with
        | .ok value => value
        | .error _ => List.replicate journalMaxSize 0

def pruneJournalLenMatches (actualLen ptrCount maxPtrs : Nat) : Bool :=
  decide (ptrCount ≤ maxPtrs ∧ actualLen = 4 + ptrCount * 20)

def readBlobPtr : Reader BlobPtr := fun data => do
  let (offset, data) ← readExact 8 data
  let (len, data) ← readExact 4 data
  let (cls, data) ← readExact 4 data
  let (gen, data) ← readExact 4 data
  pure (⟨decode offset, decode len, decode cls, decode gen⟩, data)

def readBlobPtrs : Nat → Reader (List BlobPtr)
  | 0, data => some ([], data)
  | n + 1, data => do
      let (ptr, data) ← readBlobPtr data
      let (ptrs, data) ← readBlobPtrs n data
      pure (ptr :: ptrs, data)

def decodePruneJournal (data : Bytes) : Option PruneJournal := do
  let (len, rest) ← readU32 data
  if len.toNat > maxPtrs then none
  else if pruneJournalLenMatches data.length len.toNat maxPtrs = false then none
  else
    let (ptrs, _) ← readBlobPtrs len.toNat rest
    pure ⟨ptrs⟩

def PruneJournal.fromBytes (data : Bytes) : PruneJournal := (decodePruneJournal data).getD ⟨[]⟩

structure BlobPtrFits (ptr : BlobPtr) : Prop where
  offset : ptr.offset < 256 ^ 8
  len : ptr.len < 256 ^ 4
  cls : ptr.cls < 256 ^ 4
  gen : ptr.gen < 256 ^ 4

theorem length_blobPtrBytes (ptr : BlobPtr) : (blobPtrBytes ptr).length = 20 := by
  simp [blobPtrBytes]

theorem length_flatMap_blobPtrBytes (ptrs : List BlobPtr) :
    (ptrs.flatMap blobPtrBytes).length = ptrs.length * 20 := by
  induction ptrs with
  | nil => rfl
  | cons ptr ptrs ih =>
      rw [List.flatMap_cons, List.length_append, length_blobPtrBytes, ih, List.length_cons,
        Nat.succ_mul, Nat.add_comm]

theorem readBlobPtr_append {ptr : BlobPtr} (h : BlobPtrFits ptr) (rest : Bytes) :
    readBlobPtr (blobPtrBytes ptr ++ rest) = some (ptr, rest) := by
  have hread (width n : Nat) (rest : Bytes) :
      readExact width (encode width n ++ rest) = some (encode width n, rest) :=
    readExact_append_of_length (length_encode width n) rest
  rw [readBlobPtr, blobPtrBytes]
  simp only [List.append_assoc, ↓bind_of_read (hread _ _ _), decode_encode_of_lt h.offset,
    decode_encode_of_lt h.len, decode_encode_of_lt h.cls, decode_encode_of_lt h.gen,
    Option.pure_def]

theorem readBlobPtrs_append {ptrs : List BlobPtr} (h : ∀ ptr ∈ ptrs, BlobPtrFits ptr)
    (rest : Bytes) :
    readBlobPtrs ptrs.length (ptrs.flatMap blobPtrBytes ++ rest) = some (ptrs, rest) := by
  induction ptrs with
  | nil => rfl
  | cons ptr ptrs ih =>
      obtain ⟨hptr, hptrs⟩ := List.forall_mem_cons.mp h
      rw [List.flatMap_cons, List.append_assoc, List.length_cons, readBlobPtrs,
        bind_of_read (readBlobPtr_append hptr _)]
      dsimp only
      rw [bind_of_read (ih hptrs)]
      rfl

namespace PruneJournal

def encoded (journal : PruneJournal) : Bytes :=
  u32Bytes (UInt32.ofNat journal.ptrs.length) ++ journal.ptrs.flatMap blobPtrBytes

theorem length_encoded (journal : PruneJournal) :
    journal.encoded.length = 4 + journal.ptrs.length * 20 := by
  rw [encoded, List.length_append, length_u32Bytes, length_flatMap_blobPtrBytes]

theorem toBytes_of_few {journal : PruneJournal} (h : journal.ptrs.length ≤ maxPtrs) :
    journal.toBytes = journal.encoded := by
  have hsmall : journal.ptrs.length < 2 ^ 32 := Nat.lt_of_le_of_lt h (by decide)
  have hfits : ¬ journal.encoded.length > journalMaxSize := by
    rw [length_encoded, journalMaxSize]
    omega
  rw [toBytes, u32TryFrom_of_lt hsmall]
  dsimp only
  rw [UInt32.toNat_ofNat_of_lt' hsmall, if_neg (Nat.not_lt.mpr h)]
  change (match encodeGuarded journal.encoded journalMaxSize with
    | .ok value => value
    | .error _ => List.replicate journalMaxSize 0) = journal.encoded
  rw [encodeGuarded, if_neg hfits]

theorem fromBytes_toBytes {journal : PruneJournal} (h : journal.ptrs.length ≤ maxPtrs)
    (hfits : ∀ ptr ∈ journal.ptrs, BlobPtrFits ptr) : fromBytes journal.toBytes = journal := by
  have hsmall : journal.ptrs.length < 2 ^ 32 := Nat.lt_of_le_of_lt h (by decide)
  have hmatch : pruneJournalLenMatches (4 + journal.ptrs.length * 20) journal.ptrs.length maxPtrs =
      true := by
    simpa [pruneJournalLenMatches] using h
  have hread := readBlobPtrs_append hfits []
  rw [List.append_nil] at hread
  rw [toBytes_of_few h, fromBytes, decodePruneJournal, length_encoded, encoded,
    bind_of_read (readU32_append _ _)]
  dsimp only
  rw [UInt32.toNat_ofNat_of_lt' hsmall, if_neg (Nat.not_lt.mpr h), hmatch,
    if_neg (by decide), bind_of_read hread]
  rfl

-- a journal over its limit comes back empty
theorem fromBytes_fallback : fromBytes encodeFallbackPruneJournal = ⟨[]⟩ := by decide +kernel

theorem fromBytes_stored {ptrs : List BlobPtr} (hlen : ptrs.length < 2 ^ 32)
    (hfits : ∀ ptr ∈ ptrs, BlobPtrFits ptr) :
    fromBytes (PruneJournal.mk ptrs).toBytes = ⟨journalStored ptrs⟩ := by
  rw [journalStored]
  split_ifs with hmany
  · rw [toBytes, u32TryFrom_of_lt hlen]
    dsimp only
    rw [UInt32.toNat_ofNat_of_lt' hlen, if_pos hmany]
    exact fromBytes_fallback
  · exact fromBytes_toBytes (Nat.not_lt.mp hmany) hfits

end PruneJournal

end Kasane.Chain
