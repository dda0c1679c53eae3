import Kasane.Gateway.IcpUpdates
import Kasane.Chain.TxCodec

namespace Kasane.Gateway

open BigEndian Codec Word Chain
open Precompile (isAscii)

def crc32Shift (crc : UInt32) : UInt32 :=
  (crc >>> 1) ^^^ (0xEDB88320 &&& (0 - (crc &&& 1)))

def crc32Byte (crc : UInt32) (byte : UInt8) : UInt32 :=
  crc32Shift^[8] (crc ^^^ byte.toUInt32)

def crc32Ieee (data : Bytes) : UInt32 := ~~~(data.foldl crc32Byte (~~~0))

def checksumLen : Nat := 4

def sealed (out : Bytes) : Bytes := out ++ u32Bytes (crc32Ieee out)

def checksumMatches (data rest : Bytes) : Bool :=
  decide (rest.length = checksumLen) &&
    decide (readU32 rest = some (crc32Ieee (data.take (data.length - checksumLen)), []))

def writeBytes (bytes : Bytes) : Option Bytes :=
  (u16TryFrom bytes.length).map (fun len => u16Bytes len ++ bytes)

def writeOption : Option Bytes → Option Bytes
  | none => some [0]
  | some bytes => (writeBytes bytes).map (1 :: ·)

def readBytes (maxLen : Nat) (nonEmpty : Bool) : Reader Bytes := fun data => do
  let (len, data) ← readU16 data
  if len.toNat > maxLen ∨ (nonEmpty = true ∧ len.toNat = 0) then none
  else readExact len.toNat data

def readOption {α : Type} (read : Reader α) : Reader (Option α) := fun data => do
  let (tag, data) ← readU8 data
  if tag = 0 then pure (none, data)
  else if tag = 1 then do
    let (value, data) ← read data
    pure (some value, data)
  else none

def textBytes (text : String) : Bytes := text.toByteArray.data.toList

def textOf (bytes : Bytes) : Option String := String.fromUTF8? ⟨bytes.toArray⟩

def readString (maxLen : Nat) : Reader String := fun data => do
  let (bytes, data) ← readBytes maxLen true data
  let text ← textOf bytes
  pure (text, data)

theorem textOf_textBytes (text : String) : textOf (textBytes text) = some text := by
  rw [textOf, textBytes, String.fromUTF8?]
  exact dif_pos text.isValidUTF8

theorem textBytes_eq_nil {text : String} : textBytes text = [] ↔ text = "" := by
  constructor
  · intro h
    have hback := textOf_textBytes text
    rw [h] at hback
    exact (Option.some.inj hback).symm
  · rintro rfl
    rfl

theorem length_textBytes (text : String) : (textBytes text).length = text.utf8ByteSize := rfl

theorem checksumMatches_sealed (out : Bytes) :
    checksumMatches (sealed out) (u32Bytes (crc32Ieee out)) = true := by
  have hread := readU32_append (crc32Ieee out) []
  rw [List.append_nil] at hread
  have htake : (sealed out).take ((sealed out).length - checksumLen) = out := by
    rw [sealed, List.length_append, length_u32Bytes, checksumLen, Nat.add_sub_cancel]
    exact List.take_left
  rw [checksumMatches, htake, hread]
  simp [checksumLen]

theorem writeBytes_of_le {bytes : Bytes} {maxLen : Nat} (h : bytes.length ≤ maxLen)
    (hmax : maxLen < 2 ^ 16) :
    writeBytes bytes = some (u16Bytes (.ofNat bytes.length) ++ bytes) := by
  rw [writeBytes, u16TryFrom_of_lt (lt_of_le_of_lt h hmax), Option.map_some]

theorem readBytes_append {bytes : Bytes} {maxLen : Nat} (h : bytes.length ≤ maxLen)
    (hmax : maxLen < 2 ^ 16) (nonEmpty : Bool) (rest : Bytes) :
    readBytes maxLen nonEmpty (u16Bytes (.ofNat bytes.length) ++ (bytes ++ rest)) =
      if nonEmpty = true ∧ bytes = [] then none else some (bytes, rest) := by
  have hlen : (UInt16.ofNat bytes.length).toNat = bytes.length :=
    UInt16.toNat_ofNat_of_lt (lt_of_le_of_lt h hmax)
  rw [readBytes, bind_of_read (readU16_append _ _)]
  simp only [hlen, List.length_eq_zero_iff, not_lt.mpr h, false_or]
  split_ifs
  · rfl
  · exact readExact_append bytes rest

def optionBytes (value : Option Bytes) : Bytes :=
  match value with
  | none => [0]
  | some bytes => 1 :: (u16Bytes (.ofNat bytes.length) ++ bytes)

theorem writeOption_of_le {value : Option Bytes} {maxLen : Nat}
    (h : ∀ bytes, value = some bytes → bytes.length ≤ maxLen) (hmax : maxLen < 2 ^ 16) :
    writeOption value = some (optionBytes value) := by
  cases value with
  | none => rfl
  | some bytes => rw [writeOption, writeBytes_of_le (h bytes rfl) hmax, Option.map_some, optionBytes]

theorem readOption_zero {α : Type} (read : Reader α) (data : Bytes) :
    readOption read (0 :: data) = some (none, data) := rfl

theorem readOption_one {α : Type} (read : Reader α) (data : Bytes) :
    readOption read (1 :: data) = (read data).map (Prod.map some id) := by
  have hstep : readOption read (1 :: data) =
      (read data).bind (fun result => some (some result.1, result.2)) := rfl
  rw [hstep]
  cases read data with
  | none => rfl
  | some result => rfl

theorem readOption_bytes {value : Option Bytes} {maxLen : Nat}
    (h : ∀ bytes, value = some bytes → bytes.length ≤ maxLen) (hmax : maxLen < 2 ^ 16)
    (nonEmpty : Bool) (rest : Bytes) :
    readOption (readBytes maxLen nonEmpty) (optionBytes value ++ rest) =
      if nonEmpty = true ∧ value = some [] then none else some (value, rest) := by
  cases value with
  | none => exact (readOption_zero _ rest).trans (if_neg (by simp)).symm
  | some bytes =>
      rw [optionBytes, List.cons_append, List.append_assoc, readOption_one,
        readBytes_append (h bytes rfl) hmax nonEmpty rest]
      simp only [Option.some.injEq]
      split_ifs
      · rfl
      · rfl

theorem readString_append {text : String} {maxLen : Nat} (h : text.utf8ByteSize ≤ maxLen)
    (hmax : maxLen < 2 ^ 16) (rest : Bytes) :
    readString maxLen (u16Bytes (.ofNat (textBytes text).length) ++ (textBytes text ++ rest)) =
      if text = "" then none else some (text, rest) := by
  have hlen : (textBytes text).length ≤ maxLen := h
  rw [readString, readBytes_append hlen hmax true rest]
  simp only [true_and, textBytes_eq_nil]
  split_ifs
  · rfl
  · exact bind_of_read rfl _ |>.trans (by rw [textOf_textBytes]; rfl)

theorem readOption_text {value : Option String} {maxLen : Nat}
    (h : ∀ text, value = some text → text.utf8ByteSize ≤ maxLen) (hmax : maxLen < 2 ^ 16)
    (rest : Bytes) :
    readOption (readString maxLen) (optionBytes (value.map textBytes) ++ rest) =
      if value = some "" then none else some (value, rest) := by
  cases value with
  | none => exact (readOption_zero _ rest).trans (if_neg (by simp)).symm
  | some text =>
      rw [Option.map_some, optionBytes, List.cons_append, List.append_assoc, readOption_one,
        readString_append (h text rfl) hmax rest]
      simp only [Option.some.injEq]
      split_ifs
      · rfl
      · rfl

end Kasane.Gateway
