import Kasane.Lib.BigEndian

namespace Kasane.Codec

open BigEndian

abbrev Reader (α : Type) := Bytes → Option (α × Bytes)

def readExact (len : Nat) : Reader Bytes := fun data =>
  if len > data.length then none else some (data.take len, data.drop len)

def readU8 : Reader UInt8 := fun data =>
  match data with
  | [] => none
  | b :: rest => some (b, rest)

def readU16 : Reader UInt16 := fun data =>
  (readExact 2 data).map (fun r => (UInt16.ofNat (decode r.1), r.2))

def readU32 : Reader UInt32 := fun data =>
  (readExact 4 data).map (fun r => (UInt32.ofNat (decode r.1), r.2))

def readU64 : Reader UInt64 := fun data =>
  (readExact 8 data).map (fun r => (UInt64.ofNat (decode r.1), r.2))

def readU128 : Reader (BitVec 128) := fun data =>
  (readExact 16 data).map (fun r => (BitVec.ofNat 128 (decode r.1), r.2))

def readArray (n : Nat) : Reader (ByteArr n) := fun data =>
  if h : n ≤ data.length then
    some (⟨data.take n, by simpa using h⟩, data.drop n)
  else none

def readArrays (n : Nat) : Nat → Reader (List (ByteArr n))
  | 0, data => some ([], data)
  | count + 1, data => do
      let (head, data) ← readArray n data
      let (tail, data) ← readArrays n count data
      pure (head :: tail, data)

def arrayBytes {n : Nat} (arrays : List (ByteArr n)) : Bytes := arrays.flatMap List.Vector.toList

def readVec (len : Nat) : Reader Bytes := readExact len

def u16Bytes (x : UInt16) : Bytes := encode 2 x.toNat

def u32Bytes (x : UInt32) : Bytes := encode 4 x.toNat

def u64Bytes (x : UInt64) : Bytes := encode 8 x.toNat

def u128Bytes (x : BitVec 128) : Bytes := encode 16 x.toNat

def u16TryFrom (n : Nat) : Option UInt16 := if n < 2 ^ 16 then some (UInt16.ofNat n) else none

def u32TryFrom (n : Nat) : Option UInt32 :=
  if n < 2 ^ 32 then some (UInt32.ofNat n) else none

def boundedLen (actual max : Nat) : Bool := decide (actual ≤ max)

structure EncodeOverflow where
deriving DecidableEq, Repr

def encodeGuarded (bytes : Bytes) (maxSize : Nat) : Except EncodeOverflow Bytes :=
  if bytes.length > maxSize then .error ⟨⟩ else .ok bytes

@[simp] theorem length_u16Bytes (x : UInt16) : (u16Bytes x).length = 2 := length_encode _ _

@[simp] theorem length_u32Bytes (x : UInt32) : (u32Bytes x).length = 4 := length_encode _ _

@[simp] theorem length_u64Bytes (x : UInt64) : (u64Bytes x).length = 8 := length_encode _ _

@[simp] theorem length_u128Bytes (x : BitVec 128) : (u128Bytes x).length = 16 := length_encode _ _

theorem bind_of_read {α β : Type} {read : Option (α × Bytes)} {x : α} {rest : Bytes}
    (h : read = some (x, rest)) (f : α × Bytes → Option β) : read >>= f = f (x, rest) := by
  rw [h]
  rfl

theorem bind_eq_ok {ε α β : Type} {x : Except ε α} {f : α → Except ε β} {b : β} :
    x >>= f = .ok b ↔ ∃ a, x = .ok a ∧ f a = .ok b := by
  cases x with
  | error e => simp [bind, Except.bind]
  | ok a => simp [bind, Except.bind]

@[simp] theorem readExact_append (xs rest : Bytes) :
    readExact xs.length (xs ++ rest) = some (xs, rest) := by
  simp [readExact]

theorem readExact_append_of_length {n : Nat} {xs : Bytes} (h : xs.length = n) (rest : Bytes) :
    readExact n (xs ++ rest) = some (xs, rest) := by
  subst h
  simp

theorem readExact_eq_some {n : Nat} {data xs rest : Bytes}
    (h : readExact n data = some (xs, rest)) : xs.length = n ∧ data = xs ++ rest := by
  rw [readExact] at h
  split_ifs at h with hshort
  obtain ⟨rfl, rfl⟩ := Prod.mk.inj (Option.some.inj h)
  exact ⟨List.length_take_of_le (not_lt.mp hshort), (List.take_append_drop n data).symm⟩

@[simp] theorem readVec_append (xs rest : Bytes) :
    readVec xs.length (xs ++ rest) = some (xs, rest) := readExact_append xs rest

@[simp] theorem readU8_cons (b : UInt8) (rest : Bytes) : readU8 (b :: rest) = some (b, rest) := rfl

theorem readU8_eq_some {data rest : Bytes} {b : UInt8} (h : readU8 data = some (b, rest)) :
    data = b :: rest := by
  cases data with
  | nil => simp [readU8] at h
  | cons head tail =>
      obtain ⟨rfl, rfl⟩ := Prod.mk.inj (Option.some.inj h)
      rfl

@[simp] theorem readU16_append (x : UInt16) (rest : Bytes) :
    readU16 (u16Bytes x ++ rest) = some (x, rest) := by
  have hx : x.toNat < 256 ^ 2 := x.toNat_lt
  rw [readU16, readExact_append_of_length (length_u16Bytes x), u16Bytes]
  simp [decode_encode_of_lt hx]

@[simp] theorem readU32_append (x : UInt32) (rest : Bytes) :
    readU32 (u32Bytes x ++ rest) = some (x, rest) := by
  have hx : x.toNat < 256 ^ 4 := x.toNat_lt
  rw [readU32, readExact_append_of_length (length_u32Bytes x), u32Bytes]
  simp [decode_encode_of_lt hx]

theorem readU32_eq_some {data rest : Bytes} {x : UInt32} (h : readU32 data = some (x, rest)) :
    data = u32Bytes x ++ rest := by
  rw [readU32, Option.map_eq_some_iff] at h
  obtain ⟨⟨xs, tail⟩, hread, hx⟩ := h
  obtain ⟨rfl, rfl⟩ := Prod.mk.inj hx
  obtain ⟨hlen, rfl⟩ := readExact_eq_some hread
  have hlt : decode xs < 256 ^ 4 := hlen ▸ decode_lt xs
  have hnat : (UInt32.ofNat (decode xs)).toNat = decode xs := UInt32.toNat_ofNat_of_lt hlt
  have hxs : encode 4 (decode xs) = xs := hlen ▸ encode_decode xs
  dsimp only
  rw [u32Bytes, hnat, hxs]

@[simp] theorem readU64_append (x : UInt64) (rest : Bytes) :
    readU64 (u64Bytes x ++ rest) = some (x, rest) := by
  have hx : x.toNat < 256 ^ 8 := x.toNat_lt
  rw [readU64, readExact_append_of_length (length_u64Bytes x), u64Bytes]
  simp [decode_encode_of_lt hx]

@[simp] theorem readU128_append (x : BitVec 128) (rest : Bytes) :
    readU128 (u128Bytes x ++ rest) = some (x, rest) := by
  have hx : x.toNat < 256 ^ 16 := x.isLt
  rw [readU128, readExact_append_of_length (length_u128Bytes x), u128Bytes]
  simp [decode_encode_of_lt hx]

@[simp] theorem readArray_append {n : Nat} (a : ByteArr n) (rest : Bytes) :
    readArray n (a.toList ++ rest) = some (a, rest) := by
  obtain ⟨l, hl⟩ := a
  subst hl
  simp [readArray]

theorem readArray_eq_some {n : Nat} {data rest : Bytes} {a : ByteArr n}
    (h : readArray n data = some (a, rest)) : data = a.toList ++ rest := by
  rw [readArray] at h
  split_ifs at h with hlen
  obtain ⟨rfl, rfl⟩ := Prod.mk.inj (Option.some.inj h)
  exact (List.take_append_drop n data).symm

theorem length_arrayBytes {n : Nat} (arrays : List (ByteArr n)) :
    (arrayBytes arrays).length = arrays.length * n := by
  induction arrays with
  | nil => simp [arrayBytes]
  | cons head tail ih =>
      have hcons : arrayBytes (head :: tail) = head.toList ++ arrayBytes tail := rfl
      rw [hcons, List.length_append, ih, head.toList_length, List.length_cons, Nat.succ_mul,
        Nat.add_comm]

theorem readArrays_append {n : Nat} (arrays : List (ByteArr n)) (rest : Bytes) :
    readArrays n arrays.length (arrayBytes arrays ++ rest) = some (arrays, rest) := by
  induction arrays with
  | nil => rfl
  | cons head tail ih =>
      have hcons : arrayBytes (head :: tail) ++ rest = head.toList ++ (arrayBytes tail ++ rest) := by
        simp [arrayBytes]
      rw [hcons, List.length_cons, readArrays, readArray_append]
      simp [ih, bind, Option.bind]

theorem u16TryFrom_of_lt {n : Nat} (h : n < 2 ^ 16) : u16TryFrom n = some (UInt16.ofNat n) := by
  rw [u16TryFrom, if_pos h]

theorem u32TryFrom_of_lt {n : Nat} (h : n < 2 ^ 32) : u32TryFrom n = some (UInt32.ofNat n) := by
  rw [u32TryFrom, if_pos h]

end Kasane.Codec
