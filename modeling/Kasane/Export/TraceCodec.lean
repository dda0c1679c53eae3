import Kasane.Export.InternalTrace

namespace Kasane.Export

open BigEndian Codec

inductive InternalTraceEncodeError where
  | tooManyItems
  | traceIdTooLong
  | errorCodeTooLong
  | encodedSizeExceeded
deriving DecidableEq, Repr

def InternalTraceSet.failed (totalCount : UInt32) : InternalTraceSet where
  items := []
  encodeFailed := true
  capturedCount := 0
  totalCount := totalCount
  truncated := false

def flagByte (flag : Bool) : UInt8 := if flag then 1 else 0

def optionalAddressBytes : Option (ByteArr 20) → Bytes
  | some address => 1 :: address.toList
  | none => [0]

def checkedLen (error : InternalTraceEncodeError) (maxLen : Nat) (text : Bytes) :
    Except InternalTraceEncodeError UInt16 :=
  match u16TryFrom text.length with
  | none => .error error
  | some len => if len.toNat > maxLen then .error error else .ok len

def InternalTrace.encodeWith (item : InternalTrace) (traceIdLen errorLen : UInt16) : Bytes :=
  u64Bytes item.blockNumber ++ (u32Bytes item.txIndex ++ (u16Bytes traceIdLen ++ (item.traceId ++
    (u16Bytes item.depth ++ (item.actionKind.toU8 :: (item.fromAddress.toList ++
      (optionalAddressBytes item.toAddress ++ (item.value.toList ++
        (optionalAddressBytes item.createdContractAddress ++ (flagByte item.success ::
          (u16Bytes errorLen ++ item.errorCode.getD [])))))))))))

def InternalTrace.encodeChecked (item : InternalTrace) : Except InternalTraceEncodeError Bytes := do
  let traceIdLen ← checkedLen .traceIdTooLong maxTraceIdLen item.traceId
  let errorLen ← checkedLen .errorCodeTooLong maxErrorCodeLen (item.errorCode.getD [])
  pure (item.encodeWith traceIdLen errorLen)

def encodeItems : List InternalTrace → Except InternalTraceEncodeError Bytes
  | [] => .ok []
  | item :: items => do
      let bytes ← item.encodeChecked
      let rest ← encodeItems items
      pure (bytes ++ rest)

namespace InternalTraceSet

def encodeChecked (set : InternalTraceSet) : Except InternalTraceEncodeError Bytes :=
  match u32TryFrom set.items.length with
  | none => .error .tooManyItems
  | some count =>
      if count.toNat > maxInternalTracesPerTx ∨ set.capturedCount.toNat > maxInternalTracesPerTx ∨
          set.capturedCount ≠ count ∨ set.totalCount < set.capturedCount ∨
          (set.encodeFailed = false ∧
            set.truncated ≠ decide (set.totalCount > set.capturedCount)) ∨
          (set.encodeFailed = true ∧
            (set.capturedCount ≠ 0 ∨ set.items ≠ [] ∨ set.truncated = true)) then
        .error .tooManyItems
      else do
        let items ← encodeItems set.items
        pure (internalTracesMagic ++ (flagByte set.encodeFailed :: flagByte set.truncated ::
          (u32Bytes set.capturedCount ++ (u32Bytes set.totalCount ++ (u32Bytes count ++ items)))))

def toBytesChecked (set : InternalTraceSet) : Except InternalTraceEncodeError Bytes := do
  let encoded ← set.encodeChecked
  (encodeGuarded encoded internalTracesMaxSize).mapError (fun _ => .encodedSizeExceeded)

end InternalTraceSet

def maxItemLen : Nat :=
  8 + 4 + 2 + maxTraceIdLen + 2 + 1 + 20 + 1 + 20 + 32 + 1 + 20 + 1 + 2 + maxErrorCodeLen

-- what a Rust string always is, and what the error codes of the inspector are
structure InternalTrace.Textual (item : InternalTrace) : Prop where
  traceId : isUtf8 item.traceId = true
  errorCode : ∀ code, item.errorCode = some code → isUtf8 code = true
  nonempty : item.errorCode ≠ some []

structure InternalTrace.WithinLimits (item : InternalTrace) : Prop where
  traceId : item.traceId.length ≤ maxTraceIdLen
  errorCode : (item.errorCode.getD []).length ≤ maxErrorCodeLen

theorem checkedLen_of_le {error : InternalTraceEncodeError} {maxLen : Nat} {text : Bytes}
    (hmax : maxLen < 2 ^ 16) (h : text.length ≤ maxLen) :
    checkedLen error maxLen text = .ok (UInt16.ofNat text.length) := by
  have hlen : (UInt16.ofNat text.length).toNat = text.length :=
    UInt16.toNat_ofNat_of_lt' (Nat.lt_of_le_of_lt h hmax)
  rw [checkedLen, u16TryFrom_of_lt (Nat.lt_of_le_of_lt h hmax)]
  dsimp only
  rw [hlen, if_neg (Nat.not_lt.mpr h)]

theorem checkedLen_of_lt {error : InternalTraceEncodeError} {maxLen : Nat} {text : Bytes}
    (h : maxLen < text.length) : checkedLen error maxLen text = .error error := by
  rw [checkedLen, u16TryFrom]
  split_ifs with hfits
  · dsimp only
    rw [UInt16.toNat_ofNat_of_lt' hfits, if_pos h]
  · rfl

theorem readFlag_flagByte (flag : Bool) (rest : Bytes) :
    readFlag (flagByte flag :: rest) = some (flag, rest) := by
  cases flag <;> rfl

theorem readOptionalAddress_bytes (address : Option (ByteArr 20)) (rest : Bytes) :
    readOptionalAddress (optionalAddressBytes address ++ rest) = some (address, rest) := by
  cases address with
  | none => rfl
  | some address =>
      simp [readOptionalAddress, optionalAddressBytes]

theorem fromU8_toU8 (kind : InternalTraceActionKind) :
    InternalTraceActionKind.fromU8 kind.toU8 = some kind := by
  cases kind <;> rfl

theorem readText_append {maxLen : Nat} {text : Bytes} (hmax : maxLen < 2 ^ 16)
    (hlen : text.length ≤ maxLen) (hutf8 : isUtf8 text = true) (rest : Bytes) :
    readText maxLen (u16Bytes (UInt16.ofNat text.length) ++ (text ++ rest)) = some (text, rest) := by
  have hnat : (UInt16.ofNat text.length).toNat = text.length :=
    UInt16.toNat_ofNat_of_lt' (Nat.lt_of_le_of_lt hlen hmax)
  rw [readText, bind_of_read (readU16_append _ _)]
  dsimp only
  rw [hnat, if_neg (Nat.not_lt.mpr hlen), bind_of_read (readVec_append _ _)]
  simp [hutf8]

theorem isUtf8_nil : isUtf8 [] = true := by decide

theorem InternalTrace.Textual.code {item : InternalTrace} (h : item.Textual) :
    isUtf8 (item.errorCode.getD []) = true := by
  cases hcode : item.errorCode with
  | none => exact isUtf8_nil
  | some code => exact h.errorCode code hcode

theorem InternalTrace.Textual.restored {item : InternalTrace} (h : item.Textual) :
    (if item.errorCode.getD [] = [] then none else some (item.errorCode.getD [])) =
      item.errorCode := by
  cases hcode : item.errorCode with
  | none => rfl
  | some code =>
      have hne : code ≠ [] := fun hnil => h.nonempty (hcode.trans (congrArg some hnil))
      simp [hne]

namespace InternalTrace

def encoded (item : InternalTrace) : Bytes :=
  item.encodeWith (UInt16.ofNat item.traceId.length) (UInt16.ofNat (item.errorCode.getD []).length)

theorem encodeChecked_of_within {item : InternalTrace} (h : item.WithinLimits) :
    item.encodeChecked = .ok item.encoded := by
  rw [encodeChecked, checkedLen_of_le (by decide) h.traceId,
    checkedLen_of_le (by decide) h.errorCode]
  rfl

theorem encodeChecked_of_long {item : InternalTrace} (h : maxTraceIdLen < item.traceId.length) :
    item.encodeChecked = .error .traceIdTooLong := by
  rw [encodeChecked, checkedLen_of_lt h]
  rfl

theorem readInternalTrace_encoded {item : InternalTrace} (hlimits : item.WithinLimits)
    (htext : item.Textual) (rest : Bytes) :
    readInternalTrace (item.encoded ++ rest) = some (item, rest) := by
  have hid := readText_append (by decide) hlimits.traceId htext.traceId
  have hcode := readText_append (by decide) hlimits.errorCode htext.code
  simp only [encoded, encodeWith, List.append_assoc, List.cons_append]
  rw [readInternalTrace]
  simp only [↓bind_of_read (readU64_append _ _), ↓bind_of_read (readU32_append _ _),
    ↓bind_of_read (hid _), ↓bind_of_read (readU16_append _ _), ↓bind_of_read (readU8_cons _ _),
    fromU8_toU8, ↓bind_of_read (readArray_append _ _),
    ↓bind_of_read (readOptionalAddress_bytes _ _), ↓bind_of_read (readFlag_flagByte _ _),
    ↓bind_of_read (hcode _), htext.restored, Option.pure_def, Option.bind_eq_bind,
    Option.bind_some]

theorem length_encoded_le {item : InternalTrace} (h : item.WithinLimits) :
    item.encoded.length ≤ maxItemLen := by
  have haddress (address : Option (ByteArr 20)) :
      (optionalAddressBytes address).length ≤ 1 + 20 := by
    cases address <;> simp [optionalAddressBytes]
  have hto := haddress item.toAddress
  have hcreated := haddress item.createdContractAddress
  have hid := h.traceId
  have hcode := h.errorCode
  simp only [encoded, encodeWith, List.length_append, List.length_cons, length_u64Bytes,
    length_u32Bytes, length_u16Bytes, List.Vector.toList_length, maxItemLen]
  omega

end InternalTrace

def itemBytes (items : List InternalTrace) : Bytes := items.flatMap InternalTrace.encoded

theorem encodeItems_of_within {items : List InternalTrace} (h : ∀ item ∈ items, item.WithinLimits) :
    encodeItems items = .ok (itemBytes items) := by
  induction items with
  | nil => rfl
  | cons item items ih =>
      obtain ⟨hitem, hitems⟩ := List.forall_mem_cons.mp h
      rw [encodeItems, InternalTrace.encodeChecked_of_within hitem, ih hitems]
      rfl

theorem encodeItems_of_long {items : List InternalTrace} {item : InternalTrace}
    (hmem : item ∈ items) (hlong : maxTraceIdLen < item.traceId.length) :
    ∃ e, encodeItems items = .error e := by
  induction items with
  | nil => exact absurd hmem List.not_mem_nil
  | cons first items ih =>
      rw [encodeItems]
      cases hfirst : first.encodeChecked with
      | error e => exact ⟨e, rfl⟩
      | ok bytes =>
          rcases List.mem_cons.mp hmem with rfl | hmem
          · rw [InternalTrace.encodeChecked_of_long hlong] at hfirst
            cases hfirst
          · obtain ⟨e, he⟩ := ih hmem
            exact ⟨e, by rw [he]; rfl⟩

theorem readInternalTraces_itemBytes {items : List InternalTrace}
    (hlimits : ∀ item ∈ items, item.WithinLimits) (htext : ∀ item ∈ items, item.Textual)
    (rest : Bytes) :
    readInternalTraces items.length (itemBytes items ++ rest) = some (items, rest) := by
  induction items with
  | nil => rfl
  | cons item items ih =>
      obtain ⟨hitem, hitems⟩ := List.forall_mem_cons.mp hlimits
      obtain ⟨htitem, htitems⟩ := List.forall_mem_cons.mp htext
      have hbytes : itemBytes (item :: items) ++ rest =
          item.encoded ++ (itemBytes items ++ rest) := by
        simp [itemBytes]
      rw [hbytes, List.length_cons, readInternalTraces,
        bind_of_read (InternalTrace.readInternalTrace_encoded hitem htitem _)]
      dsimp only
      rw [bind_of_read (ih hitems htitems)]
      rfl

theorem length_itemBytes_le {items : List InternalTrace}
    (h : ∀ item ∈ items, item.WithinLimits) :
    (itemBytes items).length ≤ items.length * maxItemLen := by
  induction items with
  | nil => exact Nat.zero_le _
  | cons item items ih =>
      obtain ⟨hitem, hitems⟩ := List.forall_mem_cons.mp h
      have hbytes : itemBytes (item :: items) = item.encoded ++ itemBytes items := rfl
      have hone := InternalTrace.length_encoded_le hitem
      have hrest := ih hitems
      rw [hbytes, List.length_append, List.length_cons, Nat.succ_mul]
      omega

namespace InternalTraceSet

structure Counted (set : InternalTraceSet) : Prop where
  few : set.items.length ≤ maxInternalTracesPerTx
  captured : set.capturedCount.toNat = set.items.length
  total : set.capturedCount ≤ set.totalCount
  truncated : set.encodeFailed = false →
    set.truncated = decide (set.totalCount > set.capturedCount)
  failed : set.encodeFailed = true → set.items = [] ∧ set.truncated = false

def encoded (set : InternalTraceSet) : Bytes :=
  internalTracesMagic ++ (flagByte set.encodeFailed :: flagByte set.truncated ::
    (u32Bytes set.capturedCount ++ (u32Bytes set.totalCount ++ (u32Bytes set.capturedCount ++
      itemBytes set.items))))

theorem Counted.count {set : InternalTraceSet} (h : set.Counted) :
    u32TryFrom set.items.length = some set.capturedCount := by
  rw [u32TryFrom_of_lt (Nat.lt_of_le_of_lt h.few (by decide)), ← h.captured, UInt32.ofNat_toNat]

theorem Counted.captured_eq_zero {set : InternalTraceSet} (h : set.Counted)
    (hnil : set.items = []) : set.capturedCount = 0 := by
  have hzero := h.captured
  rw [hnil] at hzero
  exact UInt32.toNat_inj.mp hzero

theorem Counted.encodeChecked {set : InternalTraceSet} (h : set.Counted) :
    set.encodeChecked = encodeItems set.items >>= fun items =>
      .ok (internalTracesMagic ++ (flagByte set.encodeFailed :: flagByte set.truncated ::
        (u32Bytes set.capturedCount ++ (u32Bytes set.totalCount ++ (u32Bytes set.capturedCount ++
          items))))) := by
  rw [InternalTraceSet.encodeChecked, h.count]
  dsimp only
  rw [if_neg]
  · rfl
  · have hfew := h.few
    rw [← h.captured] at hfew
    rintro (hmany | hmany | hne | hshort | ⟨hfailed, hne⟩ | ⟨hfailed, hrest⟩)
    · exact absurd hmany (Nat.not_lt.mpr hfew)
    · exact absurd hmany (Nat.not_lt.mpr hfew)
    · exact hne rfl
    · exact absurd hshort (UInt32.not_lt.mpr h.total)
    · exact hne (h.truncated hfailed)
    · obtain ⟨hnil, htruncated⟩ := h.failed hfailed
      rcases hrest with hcaptured | hitems | htrue
      · exact hcaptured (h.captured_eq_zero hnil)
      · exact hitems hnil
      · rw [htruncated] at htrue
        cases htrue

theorem length_encoded (set : InternalTraceSet) :
    set.encoded.length = 22 + (itemBytes set.items).length := by
  have hmagic : internalTracesMagic.length = 8 := rfl
  simp only [encoded, List.length_append, List.length_cons, length_u32Bytes, hmagic]
  omega

theorem length_encoded_le {set : InternalTraceSet} (h : set.Counted)
    (hlimits : ∀ item ∈ set.items, item.WithinLimits) :
    set.encoded.length ≤ internalTracesMaxSize := by
  have hsize : internalTracesMaxSize = 26 + maxInternalTracesPerTx * maxItemLen := rfl
  rw [length_encoded, hsize]
  exact Nat.add_le_add (by decide)
    ((length_itemBytes_le hlimits).trans (Nat.mul_le_mul_right _ h.few))

theorem toBytesChecked_of_within {set : InternalTraceSet} (h : set.Counted)
    (hlimits : ∀ item ∈ set.items, item.WithinLimits) : set.toBytesChecked = .ok set.encoded := by
  have hfits := length_encoded_le h hlimits
  rw [toBytesChecked, h.encodeChecked, encodeItems_of_within hlimits]
  change (encodeGuarded set.encoded internalTracesMaxSize).mapError _ = _
  rw [encodeGuarded, if_neg (Nat.not_lt.mpr hfits)]
  rfl

theorem toBytesChecked_of_long {set : InternalTraceSet} {item : InternalTrace} (h : set.Counted)
    (hmem : item ∈ set.items) (hlong : maxTraceIdLen < item.traceId.length) :
    ∃ e, set.toBytesChecked = .error e := by
  obtain ⟨e, he⟩ := encodeItems_of_long hmem hlong
  rw [toBytesChecked, h.encodeChecked, he]
  exact ⟨e, rfl⟩

theorem Counted.not_invalid {set : InternalTraceSet} (h : set.Counted) :
    invalidCounts set.encodeFailed set.truncated set.capturedCount set.totalCount
      set.capturedCount = false := by
  have hfew := h.few
  rw [← h.captured] at hfew
  rw [invalidCounts, decide_eq_false_iff_not]
  rintro (hmany | hne | hshort | ⟨hfailed, hne⟩ | ⟨hfailed, hrest⟩)
  · exact absurd hmany (Nat.not_lt.mpr hfew)
  · exact hne rfl
  · exact absurd hshort (UInt32.not_lt.mpr h.total)
  · exact hne (h.truncated hfailed)
  · obtain ⟨hnil, htruncated⟩ := h.failed hfailed
    have hzero := h.captured_eq_zero hnil
    rcases hrest with hcaptured | hcount | htrue
    · exact hcaptured hzero
    · exact hcount hzero
    · rw [htruncated] at htrue
      cases htrue

theorem decodeInternalTraces_encoded {set : InternalTraceSet} (h : set.Counted)
    (hlimits : ∀ item ∈ set.items, item.WithinLimits) (htext : ∀ item ∈ set.items, item.Textual) :
    decodeInternalTraces set.encoded = some set := by
  have hitems := readInternalTraces_itemBytes hlimits htext []
  rw [List.append_nil, ← h.captured] at hitems
  rw [decodeInternalTraces, encoded, bind_of_read (readExact_append _ _)]
  simp only [ne_eq, not_true_eq_false, ↓if_false, ↓bind_of_read (readFlag_flagByte _ _),
    ↓bind_of_read (readU32_append _ _), h.not_invalid, Bool.false_eq_true, ↓bind_of_read hitems,
    Option.pure_def]

theorem fromBytes_encoded {set : InternalTraceSet} (h : set.Counted)
    (hlimits : ∀ item ∈ set.items, item.WithinLimits) (htext : ∀ item ∈ set.items, item.Textual) :
    fromBytes set.encoded = set := by
  rw [fromBytes, if_neg (Nat.not_lt.mpr (length_encoded_le h hlimits)),
    decodeInternalTraces_encoded h hlimits htext]
  rfl

theorem counted_failed (totalCount : UInt32) : (failed totalCount).Counted where
  few := Nat.zero_le _
  captured := rfl
  total := UInt32.zero_le
  truncated h := by cases h
  failed _ := ⟨rfl, rfl⟩

end InternalTraceSet

end Kasane.Export
