import Kasane.Chain.Filed
import Kasane.Lib.PrefixCode

namespace Kasane.Chain

open BigEndian Codec Blob PrefixCode

variable {c : Crypto}

-- what is submitted, whoever relays it to the chain
inductive Transaction where
  | raw (kind : TxKind) (txBytes : Bytes)
  | ic (callerPrincipal canisterId : Principal) (tx : IcSyntheticTxInput)

def SubmitCall.transaction : SubmitCall → Transaction
  | .tx kind txBytes _ => .raw kind txBytes
  | .ic who canisterId input => .ic who canisterId input

def SubmitCall.StoredAs (c : Crypto) (call : SubmitCall) (id : TxId) : Prop :=
  ∃ envelope sender nonce, Submitted c call envelope sender nonce ∧ envelope.txId = id

-- an id is the hash of bytes that fix what was submitted
structure IdentifiedBy {α β : Type} (c : Crypto) (storedAs : α → TxId → Prop) (preimage : α → Bytes)
    (identity : α → β) : Prop where
  hashed : ∀ x id, storedAs x id → id = c.keccak256 (preimage x)
  injective : ∀ x y id id', storedAs x id → storedAs y id' → preimage x = preimage y →
    identity x = identity y

def readIcSynthetic : Reader IcSyntheticTxInput := fun data => do
  let (dest, data) ← readIcSyntheticTo data
  let (value, data) ← readArray 32 data
  let (gasLimit, data) ← readU64 data
  let (nonce, data) ← readU64 data
  let (maxFee, data) ← readU128 data
  let (maxPriority, data) ← readU128 data
  let (len, data) ← readU32 data
  let (payload, data) ← readExact len.toNat data
  some (⟨dest, value, gasLimit, nonce, maxFee, maxPriority, payload⟩, data)

theorem framed_byteArr (n : Nat) :
    Framed (fun _ => True) (List.Vector.toList : ByteArr n → Bytes) :=
  framed_of_read (readArray n) (fun a _ rest => readArray_append a rest)

theorem framed_u64Bytes : Framed (fun _ => True) u64Bytes :=
  framed_of_read readU64 (fun x _ rest => readU64_append x rest)

theorem framed_u32Bytes : Framed (fun _ => True) u32Bytes :=
  framed_of_read readU32 (fun x _ rest => readU32_append x rest)

theorem framed_lenPrefixed : Framed (fun _ : Principal => True) (fun p => lenPrefixed p.bytes) := by
  refine framed_of_read readPrincipal (fun p _ rest => ?_)
  have hlt : p.bytes.length < 2 ^ 16 := lt_of_le_of_lt p.bounded (by decide)
  have henc : lenPrefixed p.bytes = u16Bytes (UInt16.ofNat p.bytes.length) ++ p.bytes := by
    rw [lenPrefixed, if_pos hlt, u16Bytes, toNat_principalLen]
  rw [henc, List.append_assoc, readPrincipal_append]

theorem framed_encodeIcSynthetic :
    Framed (fun tx => (encodeIcSyntheticInput tx).length ≤ maxTxSize) encodeIcSyntheticInput := by
  refine framed_of_read readIcSynthetic (fun tx hsize rest => ?_)
  have hdata : tx.data.length < 2 ^ 32 :=
    lt_of_le_of_lt ((data_le_encodeIcSynthetic tx).trans hsize) (by decide)
  have hlen : (UInt32.ofNat tx.data.length).toNat = tx.data.length :=
    UInt32.toNat_ofNat_of_lt hdata
  have hread := readExact_append_of_length hlen.symm rest
  rw [readIcSynthetic, encodeIcSyntheticInput, u32TryFrom_of_lt hdata, Option.getD_some]
  simp only [List.append_assoc, ↓bind_of_read (readIcSyntheticTo_append _ _),
    ↓bind_of_read (readArray_append _ _), ↓bind_of_read (readU64_append _ _),
    ↓bind_of_read (readU128_append _ _), ↓bind_of_read (readU32_append _ _), ↓bind_of_read hread]

theorem decodeIcSynthetic_longer {tx : IcSyntheticTxInput}
    (hsize : (encodeIcSyntheticInput tx).length ≤ maxTxSize) {rest : Bytes} (hrest : rest ≠ []) :
    decodeIcSyntheticHeader (encodeIcSyntheticInput tx ++ rest) = none := by
  have hdata : tx.data.length < 2 ^ 32 :=
    lt_of_le_of_lt ((data_le_encodeIcSynthetic tx).trans hsize) (by decide)
  have hlen : (UInt32.ofNat tx.data.length).toNat = tx.data.length :=
    UInt32.toNat_ofNat_of_lt hdata
  have hlonger : (tx.data ++ rest).length ≠ tx.data.length := by
    rw [List.length_append]
    have := List.length_pos_iff.mpr hrest
    omega
  rw [decodeIcSyntheticHeader]
  split_ifs with hshort
  · rfl
  · rw [encodeIcSyntheticInput, u32TryFrom_of_lt hdata, Option.getD_some]
    simp only [List.append_assoc, ↓bind_of_read (readIcSyntheticTo_append _ _),
      ↓bind_of_read (readArray_append _ _), ↓bind_of_read (readU64_append _ _),
      ↓bind_of_read (readU128_append _ _), ↓bind_of_read (readU32_append _ _), hlen, ne_eq, hlonger,
      not_false_eq_true, true_or, if_true]

theorem toU8_injective : Function.Injective TxKind.toU8 := by
  intro kind kind' h
  have hread := fromU8_toU8 kind
  rw [h, fromU8_toU8] at hread
  exact (Option.some.inj hread).symm

-- a raw encoding that decodes ends with its data, so nothing signed can follow it
theorem raw_ne_ic {kind : TxKind} {raw : Bytes} {tx : TxEnv}
    (decoded : decodeTx c kind (zeroArr 20) raw = some tx) {input : IcSyntheticTxInput}
    (size : (encodeIcSyntheticInput input).length ≤ maxTxSize) (caller : Address) (rest : Bytes) :
    kind.toU8 :: raw ≠
      TxKind.icSynthetic.toU8 :: (encodeIcSyntheticInput input ++ (caller.toList ++ rest)) := by
  intro h
  obtain ⟨hkind, rfl⟩ := List.cons.inj h
  obtain rfl := toU8_injective hkind
  have hlonger : caller.toList ++ rest ≠ [] := by
    intro hnil
    have := congrArg List.length hnil
    simp at this
  rw [decodeTx, decodeIcSynthetic, decodeIcSynthetic_longer size hlonger] at decoded
  exact absurd decoded (by simp)

theorem idPreimage_ic {who canisterId : Principal} {input : IcSyntheticTxInput} {caller : Address}
    (derived : c.deriveEvmAddress who.bytes = some caller) :
    (SubmitCall.ic who canisterId input).idPreimage c =
      storedTxDomain ++ (TxKind.icSynthetic.toU8 :: (encodeIcSyntheticInput input ++
        (caller.toList ++ (lenPrefixed canisterId.bytes ++ lenPrefixed who.bytes)))) := by
  rw [SubmitCall.idPreimage, derived]
  rfl

theorem idPreimage_raw (kind : TxKind) (raw : Bytes) (who : Principal) :
    (SubmitCall.tx kind raw who).idPreimage c = storedTxDomain ++ (kind.toU8 :: raw) := by
  simp [SubmitCall.idPreimage, idPreimage]

theorem transaction_of_idPreimage {x y : SubmitCall} {e f : StoredTxBytes} {a b : Address}
    {n m : Nat} (hx : Submitted c x e a n) (hy : Submitted c y f b m)
    (h : x.idPreimage c = y.idPreimage c) : x.transaction = y.transaction := by
  cases hx with
  | raw size decoded =>
      cases hy with
      | raw size' decoded' =>
          rw [idPreimage_raw, idPreimage_raw] at h
          obtain ⟨hkind, rfl⟩ := List.cons.inj (List.append_cancel_left h)
          obtain rfl := toU8_injective hkind
          rfl
      | ic size' derived' =>
          rw [idPreimage_raw, idPreimage_ic derived'] at h
          exact absurd (List.append_cancel_left h) (raw_ne_ic decoded size' _ _)
  | ic size derived =>
      cases hy with
      | raw size' decoded' =>
          rw [idPreimage_raw, idPreimage_ic derived] at h
          exact absurd (List.append_cancel_left h).symm (raw_ne_ic decoded' size _ _)
      | ic size' derived' =>
          rw [idPreimage_ic derived, idPreimage_ic derived'] at h
          have hrest := (List.cons.inj (List.append_cancel_left h)).2
          obtain ⟨rfl, hsigned⟩ := framed_encodeIcSynthetic size size' hrest
          obtain ⟨-, hids⟩ := framed_byteArr 20 trivial trivial hsigned
          obtain ⟨rfl, hwho⟩ := framed_lenPrefixed trivial trivial hids
          obtain rfl := framed_lenPrefixed.injective trivial trivial hwho
          rfl

theorem identifiedBy_storedTxId (c : Crypto) :
    IdentifiedBy c (SubmitCall.StoredAs c) (SubmitCall.idPreimage c) SubmitCall.transaction where
  hashed := by
    rintro x id ⟨envelope, sender, nonce, h, rfl⟩
    exact h.txId_eq
  injective := by
    rintro x y id id' ⟨e, sender, nonce, hx, -⟩ ⟨f, sender', nonce', hy, -⟩ h
    exact transaction_of_idPreimage hx hy h

end Kasane.Chain
