import Kasane.Chain.Advances
import Mathlib.Data.BitVec

namespace Kasane.Chain

open BigEndian Codec Word Blob

def maxStoredPrincipalLen : Nat := 64

def storedTxMaxSize : Nat :=
  1 + 1 + 32 + 1 + 20 + 16 + 16 + 2 + maxPrincipalLen + 2 + maxPrincipalLen + 4 + maxTxSize

def TxKind.fromU8 (value : UInt8) : Option TxKind :=
  if value = 0x01 then some .ethSigned
  else if value = 0x02 then some .icSynthetic
  else none

def StoredTxBytes.isInvalid (value : StoredTxBytes) : Bool :=
  decide (value.raw = [] ∨ value.version ≠ storedTxVersion)

def fnvOffset : UInt64 := 0xcbf29ce484222325

def fnvPrime : UInt64 := 0x100000001b3

def fnvHash (start : UInt64) (raw : Bytes) : UInt64 :=
  raw.foldl (fun hash b => (hash ^^^ b.toUInt64) * fnvPrime) start

def placeholderHash (raw : Bytes) : TxId :=
  ⟨u64Bytes (fnvHash fnvOffset raw) ++ (u64Bytes (fnvHash (fnvOffset + 1) raw) ++
      (u64Bytes (fnvHash (fnvOffset + 2) raw) ++ u64Bytes (fnvHash (fnvOffset + 3) raw))), by
    simp⟩

def invalidStoredTx (version : UInt8) (raw : Bytes) : StoredTxBytes where
  version := version
  txId := placeholderHash raw
  kind := .ethSigned
  raw := []
  callerEvm := none
  canisterId := .empty
  callerPrincipal := .empty
  maxFeePerGas := 0
  maxPriorityFeePerGas := 0
  isDynamicFee := false

namespace StoredTxBytes

def flags (inner : StoredTxBytes) : UInt8 :=
  (if inner.callerEvm.isSome then 1 else 0) ||| (if inner.isDynamicFee then 2 else 0)

def encodeHead (inner : StoredTxBytes) : Bytes :=
  inner.version :: inner.kind.toU8 :: (inner.txId.toList ++ (inner.flags ::
    ((inner.callerEvm.getD (zeroArr 20)).toList ++ (BigEndian.encode 16 inner.maxFeePerGas ++
      BigEndian.encode 16 inner.maxPriorityFeePerGas))))

def encodeWith (inner : StoredTxBytes) (canisterLen principalLen : UInt16) (len : UInt32) : Bytes :=
  inner.encodeHead ++ (u16Bytes canisterLen ++ (inner.canisterId.bytes ++ (u16Bytes principalLen ++
    (inner.callerPrincipal.bytes ++ (u32Bytes len ++ inner.raw)))))

def encodeMinimal (inner : StoredTxBytes) : Bytes :=
  inner.encodeWith (UInt16.ofNat inner.canisterId.bytes.length)
    (UInt16.ofNat inner.callerPrincipal.bytes.length) (UInt32.ofNat inner.raw.length)

def encodeFallback : Bytes :=
  match encodeGuarded (encodeMinimal (invalidStoredTx 0 [])) storedTxMaxSize with
  | .ok value => value
  | .error _ => [storedTxVersion]

def encode (inner : StoredTxBytes) : Bytes :=
  match u16TryFrom inner.canisterId.bytes.length with
  | none => encodeFallback
  | some canisterLen =>
      match u16TryFrom inner.callerPrincipal.bytes.length with
      | none => encodeFallback
      | some principalLen =>
          match u32TryFrom inner.raw.length with
          | none => encodeFallback
          | some len => inner.encodeWith canisterLen principalLen len

def toBytes (inner : StoredTxBytes) : Bytes :=
  match encodeGuarded inner.encode storedTxMaxSize with
  | .ok value => value
  | .error _ => encodeFallback

end StoredTxBytes

def readPrincipal : Reader Principal := fun data => do
  let (len, rest) ← readU16 data
  if len.toNat > min maxPrincipalLen maxStoredPrincipalLen then none
  else
    let (bytes, rest) ← readExact len.toNat rest
    if h : bytes.length ≤ maxPrincipalLen then some (⟨bytes, h⟩, rest) else none

def storedTxBaseLen : Nat := 1 + 1 + 32 + 1 + 20 + 16 + 16 + 4

def decodeStoredTx (data : Bytes) : Option StoredTxBytes :=
  if data.length < storedTxBaseLen then none
  else do
    let (version, rest) ← readU8 data
    if version ≠ storedTxVersion then none
    else
      let (kindByte, rest) ← readU8 rest
      let kind ← TxKind.fromU8 kindByte
      let (txId, rest) ← readArray 32 rest
      let (flags, rest) ← readU8 rest
      let (caller, rest) ← readArray 20 rest
      let (maxFee, rest) ← readU128 rest
      let (maxPriority, rest) ← readU128 rest
      let (canisterId, rest) ← readPrincipal rest
      let (callerPrincipal, rest) ← readPrincipal rest
      let (len, raw) ← readU32 rest
      if raw.length ≠ len.toNat then none
      else if len.toNat > maxTxSize then none
      else
        some ⟨version, txId, kind, raw, if flags &&& 1 ≠ 0 then some caller else none, canisterId,
          callerPrincipal, maxFee.toNat, maxPriority.toNat, decide (flags &&& 2 ≠ 0)⟩

def StoredTxBytes.fromBytes (data : Bytes) : StoredTxBytes :=
  match data with
  | [] => invalidStoredTx 0 data
  | version :: _ => (decodeStoredTx data).getD (invalidStoredTx version data)

theorem u16TryFrom_principal (p : Principal) :
    u16TryFrom p.bytes.length = some (UInt16.ofNat p.bytes.length) :=
  u16TryFrom_of_lt (lt_of_le_of_lt p.bounded (by decide))

theorem toNat_principalLen (p : Principal) :
    (UInt16.ofNat p.bytes.length).toNat = p.bytes.length :=
  UInt16.toNat_ofNat_of_lt (lt_of_le_of_lt p.bounded (by decide))

theorem readPrincipal_append (p : Principal) (rest : Bytes) :
    readPrincipal (u16Bytes (UInt16.ofNat p.bytes.length) ++ (p.bytes ++ rest)) =
      some (p, rest) := by
  have hlen : ¬ (UInt16.ofNat p.bytes.length).toNat > min maxPrincipalLen maxStoredPrincipalLen := by
    rw [toNat_principalLen]
    exact not_lt.mpr p.bounded
  simp only [readPrincipal, ↓bind_of_read (readU16_append _ _), hlen, ↓if_false]
  rw [toNat_principalLen, bind_of_read (readExact_append _ _)]
  simp only [p.bounded, ↓dif_pos]

theorem readU128_encode {n : Nat} (h : n ≤ u128Max) (rest : Bytes) :
    readU128 (encode 16 n ++ rest) = some (BitVec.ofNat 128 n, rest) := by
  have hlt : n < 2 ^ 128 := Nat.lt_of_le_of_lt h (by decide)
  have hread := readU128_append (BitVec.ofNat 128 n) rest
  rwa [u128Bytes, BitVec.toNat_ofNat, Nat.mod_eq_of_lt hlt] at hread

theorem fromU8_toU8 (kind : TxKind) : TxKind.fromU8 kind.toU8 = some kind := by
  cases kind <;> rfl

structure StoredTxBytes.Bounded (value : StoredTxBytes) : Prop where
  version : value.version = storedTxVersion
  raw : value.raw.length ≤ maxTxSize
  maxFee : value.maxFeePerGas ≤ u128Max
  maxPriority : value.maxPriorityFeePerGas ≤ u128Max

theorem StoredTxBytes.length_encodeMinimal (value : StoredTxBytes) :
    value.encodeMinimal.length = 95 + value.canisterId.bytes.length +
      value.callerPrincipal.bytes.length + value.raw.length := by
  simp only [encodeMinimal, encodeWith, encodeHead, List.length_append, List.length_cons,
    List.Vector.toList_length, length_encode, length_u16Bytes, length_u32Bytes]
  omega

theorem StoredTxBytes.encode_of_bounded {value : StoredTxBytes} (h : value.Bounded) :
    value.encode = value.encodeMinimal := by
  have hraw : value.raw.length < 2 ^ 32 := lt_of_le_of_lt h.raw (by decide)
  simp only [encode, u16TryFrom_principal, u32TryFrom_of_lt hraw, encodeMinimal]

theorem StoredTxBytes.toBytes_of_bounded {value : StoredTxBytes} (h : value.Bounded) :
    value.toBytes = value.encodeMinimal := by
  have hcanister := value.canisterId.bounded
  have hprincipal := value.callerPrincipal.bounded
  have hraw := h.raw
  have hfits : ¬ value.encodeMinimal.length > storedTxMaxSize := by
    rw [length_encodeMinimal, storedTxMaxSize]
    omega
  simp only [toBytes, encode_of_bounded h, encodeGuarded, hfits, if_false]

theorem flags_bits : ∀ caller dynamic : Bool,
    (((if caller then 1 else 0) ||| (if dynamic then 2 else 0) : UInt8) &&& 1 ≠ 0 ↔ caller = true) ∧
      (((if caller then 1 else 0) ||| (if dynamic then 2 else 0) : UInt8) &&& 2 ≠ 0 ↔
        dynamic = true) := by
  decide

theorem flags_callerEvm (value : StoredTxBytes) :
    (if value.flags &&& 1 ≠ 0 then some (value.callerEvm.getD (zeroArr 20)) else none) =
      value.callerEvm := by
  have hbit := (flags_bits value.callerEvm.isSome value.isDynamicFee).1
  rw [StoredTxBytes.flags]
  cases hcaller : value.callerEvm with
  | none =>
      rw [hcaller] at hbit
      exact if_neg (fun h => absurd (hbit.mp h) (by simp))
  | some caller =>
      rw [hcaller] at hbit
      exact if_pos (hbit.mpr rfl)

theorem flags_isDynamicFee (value : StoredTxBytes) :
    decide (value.flags &&& 2 ≠ 0) = value.isDynamicFee := by
  have hbit := (flags_bits value.callerEvm.isSome value.isDynamicFee).2
  rw [StoredTxBytes.flags, decide_eq_decide.mpr hbit, Bool.decide_coe]

theorem decodeStoredTx_encodeMinimal {value : StoredTxBytes} (h : value.Bounded) :
    decodeStoredTx value.encodeMinimal = some value := by
  have hbase : ¬ value.encodeMinimal.length < storedTxBaseLen := by
    rw [StoredTxBytes.length_encodeMinimal, storedTxBaseLen]
    omega
  have hraw32 : value.raw.length < UInt32.size := lt_of_le_of_lt h.raw (by decide)
  have hlen : (UInt32.ofNat value.raw.length).toNat = value.raw.length :=
    UInt32.toNat_ofNat_of_lt hraw32
  have hversion : ¬ value.version ≠ storedTxVersion := not_not.mpr h.version
  have hsize : ¬ value.raw.length > maxTxSize := not_lt.mpr h.raw
  have hmaxFee : value.maxFeePerGas < 2 ^ 128 := Nat.lt_of_le_of_lt h.maxFee (by decide)
  have hmaxPriority : value.maxPriorityFeePerGas < 2 ^ 128 :=
    Nat.lt_of_le_of_lt h.maxPriority (by decide)
  have hbytes : value.encodeMinimal = value.version :: value.kind.toU8 :: (value.txId.toList ++
      (value.flags :: ((value.callerEvm.getD (zeroArr 20)).toList ++
        (encode 16 value.maxFeePerGas ++ (encode 16 value.maxPriorityFeePerGas ++
          (u16Bytes (UInt16.ofNat value.canisterId.bytes.length) ++ (value.canisterId.bytes ++
            (u16Bytes (UInt16.ofNat value.callerPrincipal.bytes.length) ++
              (value.callerPrincipal.bytes ++
                (u32Bytes (UInt32.ofNat value.raw.length) ++ value.raw)))))))))) := by
    simp [StoredTxBytes.encodeMinimal, StoredTxBytes.encodeWith, StoredTxBytes.encodeHead]
  rw [decodeStoredTx, if_neg hbase, hbytes]
  simp only [↓bind_of_read (readU8_cons _ _), hversion, ↓if_false, fromU8_toU8, Option.bind_eq_bind,
    Option.bind_some, ↓bind_of_read (readArray_append _ _), ↓bind_of_read (readU128_encode h.maxFee _),
    ↓bind_of_read (readU128_encode h.maxPriority _), ↓bind_of_read (readPrincipal_append _ _),
    ↓bind_of_read (readU32_append _ _), hlen, ne_eq, not_true_eq_false, hsize, flags_callerEvm]
  have hflag : decide (¬ value.flags &&& 2 = 0) = value.isDynamicFee := flags_isDynamicFee value
  rw [hflag, BitVec.toNat_ofNat, BitVec.toNat_ofNat, Nat.mod_eq_of_lt hmaxFee,
    Nat.mod_eq_of_lt hmaxPriority]

theorem StoredTxBytes.fromBytes_toBytes {value : StoredTxBytes} (h : value.Bounded) :
    fromBytes value.toBytes = value := by
  have hdecode := decodeStoredTx_encodeMinimal h
  rw [toBytes_of_bounded h]
  cases hbytes : value.encodeMinimal with
  | nil =>
      rw [hbytes] at hdecode
      exact absurd hdecode (by simp [decodeStoredTx, storedTxBaseLen])
  | cons version rest =>
      rw [hbytes] at hdecode
      rw [fromBytes, hdecode, Option.getD_some]

def StoredTxBytes.stored (value : StoredTxBytes) : StoredTx where
  kind := value.kind
  raw := value.raw
  callerEvm := value.callerEvm
  canisterId := value.canisterId
  callerPrincipal := value.callerPrincipal
  maxFeePerGas := value.maxFeePerGas
  maxPriorityFeePerGas := value.maxPriorityFeePerGas
  isDynamicFee := value.isDynamicFee
  txId := value.txId

structure StoredTxBytes.RoundTrips (value : StoredTxBytes) : Prop where
  encoded : value.encode = value.encodeMinimal
  fits : encodeGuarded value.encode storedTxMaxSize = .ok value.toBytes
  back : fromBytes value.toBytes = value

theorem StoredTxBytes.Bounded.roundTrips {value : StoredTxBytes} (h : value.Bounded) :
    value.RoundTrips := by
  have hlen := StoredTxBytes.toBytes_of_bounded h
  refine ⟨encode_of_bounded h, ?_, fromBytes_toBytes h⟩
  rw [toBytes] at hlen ⊢
  rcases hguard : encodeGuarded value.encode storedTxMaxSize with e | bytes
  · rw [hguard] at hlen
    have hback := fromBytes_toBytes h
    rw [toBytes, hguard] at hback
    have hfallback : (fromBytes encodeFallback).version ≠ storedTxVersion := by decide +kernel
    have hversion := h.version
    rw [← hback] at hversion
    exact absurd hversion hfallback
  · rfl

-- what the recovery crate promises by its types: every fee it returns is a u128
structure FeesFit (c : Crypto) : Prop where
  gasPrice : ∀ raw tx price, c.recoverEthTx raw = some tx → tx.gasPrice = some price →
    price ≤ u128Max
  maxFee : ∀ raw tx price, c.recoverEthTx raw = some tx → tx.maxFeePerGas = some price →
    price ≤ u128Max
  maxPriority : ∀ raw tx price, c.recoverEthTx raw = some tx → tx.maxPriorityFeePerGas = some price →
    price ≤ u128Max

theorem fees_decodeTx (h : FeesFit c) {kind : TxKind} {caller : Address} {raw : Bytes} {tx : TxEnv}
    (hdecode : decodeTx c kind caller raw = some tx) :
    tx.gasPrice ≤ u128Max ∧ tx.gasPriorityFee.getD 0 ≤ u128Max := by
  have hbits (x : BitVec 128) : x.toNat ≤ u128Max := Nat.le_of_lt_succ x.isLt
  cases kind with
  | icSynthetic =>
      obtain ⟨header, -, rfl⟩ := Option.map_eq_some_iff.mp hdecode
      exact ⟨hbits _, hbits _⟩
  | ethSigned =>
      rw [decodeTx, decodeEthRawTx.eq_def] at hdecode
      split at hdecode
      · exact absurd hdecode (by simp)
      · split_ifs at hdecode
        obtain ⟨recovered, hrecover, rfl⟩ := Option.map_eq_some_iff.mp hdecode
        refine ⟨?_, ?_⟩
        · rw [decodedToTxEnv]
          cases hprice : recovered.gasPrice with
          | some price => exact h.gasPrice _ _ _ hrecover hprice
          | none =>
              cases hmax : recovered.maxFeePerGas with
              | some price => exact h.maxFee _ _ _ hrecover hmax
              | none => exact Nat.zero_le _
        · rw [decodedToTxEnv]
          cases hpriority : recovered.maxPriorityFeePerGas with
          | some price => exact h.maxPriority _ _ _ hrecover hpriority
          | none => exact Nat.zero_le _

theorem Submitted.bounded (hfees : FeesFit c) {call : SubmitCall} {envelope : StoredTxBytes}
    {sender : Address} {nonce : Nat} (h : Submitted c call envelope sender nonce) :
    envelope.Bounded := by
  cases h with
  | raw size decoded =>
      obtain ⟨hfee, hpriority⟩ := fees_decodeTx hfees decoded
      exact ⟨rfl, size, hfee, hpriority⟩
  | @ic tx _ _ _ size derived =>
      exact ⟨rfl, size, Nat.le_of_lt_succ tx.maxFeePerGas.isLt,
        Nat.le_of_lt_succ tx.maxPriorityFeePerGas.isLt⟩

def SubmitCall.Identified : SubmitCall → Prop
  | .tx kind _ _ => kind = .ethSigned
  | .ic who canisterId _ => canisterId.bytes ≠ [] ∧ who.bytes ≠ []

theorem tryFrom_raw {kind : TxKind} {raw : Bytes} {who : Principal} {tx : TxEnv}
    (hdecode : decodeTx c kind (zeroArr 20) raw = some tx) :
    StoredTx.tryFrom c (rawEnvelope c kind raw who tx) = .ok (rawEnvelope c kind raw who tx).stored ↔
      kind = .ethSigned := by
  cases kind with
  | icSynthetic =>
      have hraw : raw ≠ [] := by
        rintro rfl
        exact absurd hdecode (by simp [decodeTx, decodeIcSynthetic, decodeIcSyntheticHeader,
          icTxBaseHeaderLen])
      simp [StoredTx.tryFrom, rawEnvelope, hraw]
  | ethSigned =>
      have hraw : raw ≠ [] := by
        rintro rfl
        exact absurd hdecode (by simp [decodeTx, decodeEthRawTx])
      simp [StoredTx.tryFrom, rawEnvelope, hraw, Principal.empty, StoredTxBytes.stored]

theorem tryFrom_ic {callerEvm : Address} {who canisterId : Principal} {tx : IcSyntheticTxInput}
    (hderived : c.deriveEvmAddress who.bytes = some callerEvm) :
    StoredTx.tryFrom c (icEnvelope c callerEvm who canisterId tx) =
        .ok (icEnvelope c callerEvm who canisterId tx).stored ↔
      canisterId.bytes ≠ [] ∧ who.bytes ≠ [] := by
  have hraw := encodeIcSyntheticInput_ne_nil tx
  by_cases hids : canisterId.bytes = [] ∨ who.bytes = []
  · simp [StoredTx.tryFrom, icEnvelope, hraw, hids]
    rcases hids with h | h <;> simp [h]
  · have hnot := not_or.mp hids
    simp [StoredTx.tryFrom, icEnvelope, hraw, hnot.1, hnot.2, hderived, StoredTxBytes.stored]

theorem tryFrom_submitted {call : SubmitCall} {envelope : StoredTxBytes} {sender : Address}
    {nonce : Nat} (h : Submitted c call envelope sender nonce) :
    StoredTx.tryFrom c envelope = .ok envelope.stored ↔ call.Identified := by
  cases h with
  | raw size decoded => exact tryFrom_raw decoded
  | ic size derived => exact tryFrom_ic derived

theorem stored_record_reads_back (fees : FeesFit c) {evm : Evm W} {call : SubmitCall} {now : Nat}
    {s t : StableState W} {id : TxId} (stores : call.run c evm now s = (.ok id, t)) :
    ∃ value, t.txStore.get id = some value ∧ value.RoundTrips ∧
      (StoredTx.tryFrom c (.fromBytes value.toBytes) = .ok value.stored ↔ call.Identified) := by
  have hsubmission := @submission_run W c evm s now call
  rw [stores] at hsubmission
  dsimp only at hsubmission
  generalize hr : (Except.ok id : Except ChainError TxId) = r at hsubmission
  cases hsubmission with
  | refused e tidied => exact absurd hr (by simp)
  | @queued u envelope sender nonce price submitted fresh tidied expected =>
      obtain rfl := Except.ok.inj hr
      have hround := (submitted.bounded fees).roundTrips
      refine ⟨envelope, ?_, hround, ?_⟩
      · rw [txStore_enqueuePending]
        exact (OrdMap.get_insert ..).trans (if_pos rfl)
      · rw [hround.back]
        exact tryFrom_submitted submitted

def derivingCrypto : Crypto where
  keccak256 := lastByteArr 32
  deriveEvmAddress := fun bytes => some (lastByteArr 20 bytes)
  recoverEthTx := fun _ => none

def sampleIcTx : IcSyntheticTxInput := ⟨none, zeroArr 32, 21000, 0, 10 ^ 12, 2 * 10 ^ 11, []⟩

theorem feesFit_derivingCrypto : FeesFit derivingCrypto :=
  ⟨fun _ _ _ h => absurd h (by simp [derivingCrypto]), fun _ _ _ h => absurd h (by simp [derivingCrypto]),
    fun _ _ _ h => absurd h (by simp [derivingCrypto])⟩

def storesValue (check : StoredTxBytes → Bool) (r : Except ChainError TxId × StableState Unit) : Bool :=
  match r with
  | (.ok id, t) => ((t.txStore.get id).map check).getD false
  | _ => false

theorem stored_of_check (check : StoredTxBytes → Bool) {r : Except ChainError TxId × StableState Unit}
    (h : storesValue check r = true) :
    ∃ id t value, r = (.ok id, t) ∧ t.txStore.get id = some value ∧ check value = true := by
  obtain ⟨result, t⟩ := r
  cases result with
  | error e => exact absurd h (by simp [storesValue])
  | ok id =>
      rw [storesValue] at h
      cases hget : t.txStore.get id with
      | none =>
          rw [hget] at h
          exact absurd h (by simp)
      | some value =>
          rw [hget] at h
          exact ⟨id, t, value, rfl, hget, h⟩

theorem sampleIcTx_reads_back :
    ∃ id t value, (SubmitCall.ic samplePrincipal samplePrincipal sampleIcTx).run derivingCrypto
        sampleEvm 0 (.init ()) = (.ok id, t) ∧
      t.txStore.get id = some value ∧ value.RoundTrips ∧
      StoredTx.tryFrom derivingCrypto (.fromBytes value.toBytes) = .ok value.stored := by
  obtain ⟨id, t, -, hrun, -⟩ := stored_of_check (fun _ => true)
    (r := (SubmitCall.ic samplePrincipal samplePrincipal sampleIcTx).run derivingCrypto sampleEvm 0
      (.init ())) (by decide +kernel)
  obtain ⟨value, hstored, hround, hback⟩ := stored_record_reads_back feesFit_derivingCrypto hrun
  exact ⟨id, t, value, hrun, hstored, hround, hback.mpr ⟨by decide, by decide⟩⟩

theorem empty_canister_unreadable :
    ∃ id t value, (SubmitCall.ic samplePrincipal .empty sampleIcTx).run derivingCrypto sampleEvm 0
        (.init ()) = (.ok id, t) ∧
      t.txStore.get id = some value ∧
      StoredTx.tryFrom derivingCrypto (.fromBytes value.toBytes) = .error .missingPrincipal := by
  obtain ⟨id, t, value, hrun, hstored, hcheck⟩ := stored_of_check
    (fun value => decide (StoredTx.tryFrom derivingCrypto (.fromBytes value.toBytes) =
      .error .missingPrincipal))
    (r := (SubmitCall.ic samplePrincipal .empty sampleIcTx).run derivingCrypto sampleEvm 0 (.init ()))
    (by decide +kernel)
  exact ⟨id, t, value, hrun, hstored, of_decide_eq_true hcheck⟩

end Kasane.Chain
