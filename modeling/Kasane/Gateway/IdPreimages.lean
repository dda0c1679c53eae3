import Kasane.Chain.IdPreimages
import Kasane.Gateway.Run

namespace Kasane.Gateway

open BigEndian Codec Word Chain PrefixCode

variable {c : Crypto}

structure WrapSubmission where
  caller : Principal
  args : SubmitWrapRequestArgs

structure WrapIdentity where
  caller : Principal
  assetId : Principal
  amountE8s : Nat
  evmRecipient : Address
  evmNonce : UInt64
  gasLimit : UInt64

namespace WrapSubmission

def identity (w : WrapSubmission) : WrapIdentity where
  caller := w.caller
  assetId := w.args.assetId
  amountE8s := w.args.amountE8s
  evmRecipient := w.args.evmRecipient
  evmNonce := w.args.evmNonce
  gasLimit := w.args.gasLimit

def idPreimage (w : WrapSubmission) : Bytes :=
  "kasane.wrap.request.v1".toUTF8.toList ++ (hashLenPrefixed w.caller.bytes ++
    (hashLenPrefixed w.args.assetId.bytes ++ (hashLenPrefixed (encode 32 w.args.amountE8s) ++
      (hashLenPrefixed w.args.evmRecipient.toList ++
        (u64Bytes w.args.evmNonce ++ u64Bytes w.args.gasLimit)))))

def StoredAs (c : Crypto) (w : WrapSubmission) (id : TxId) : Prop :=
  ∃ caller normalized, StoredPrincipal.ofPrincipal w.caller = some caller ∧
    normalizeSubmitWrapRequest c caller w.args = some normalized ∧ normalized.requestId = id

end WrapSubmission

structure DepositSubmission where
  caller : Principal
  args : SubmitNativeDepositArgs

namespace DepositSubmission

def identity (d : DepositSubmission) : Principal × ByteArr 32 := (d.caller, d.args.depositId)

def idPreimage (d : DepositSubmission) : Bytes :=
  "kasane.native.deposit.v2".toUTF8.toList ++
    (hashLenPrefixed d.caller.bytes ++ hashLenPrefixed d.args.depositId.toList)

def StoredAs (c : Crypto) (d : DepositSubmission) (id : TxId) : Prop :=
  ∃ caller, StoredPrincipal.ofPrincipal d.caller = some caller ∧
    deriveNativeDepositRequestId c caller.bytes d.args.depositId.toList = id

end DepositSubmission

structure LogPosition where
  txId : TxId
  logIndex : Nat

namespace LogPosition

def idPreimage (l : LogPosition) : Bytes := l.txId.toList ++ u32Bytes (UInt32.ofNat l.logIndex)

def StoredAs (c : Crypto) (l : LogPosition) (id : TxId) : Prop :=
  deriveLogRequestId c l.txId l.logIndex = some id

end LogPosition

theorem framed_hashLenPrefixed :
    Framed (fun bytes : Bytes => bytes.length < 2 ^ 32) hashLenPrefixed := by
  refine framed_of_read (fun data => readU32 data >>= fun r => readExact r.1.toNat r.2)
    (fun bytes hlt rest => ?_)
  have hlen : (UInt32.ofNat bytes.length).toNat = bytes.length := UInt32.toNat_ofNat_of_lt hlt
  rw [hashLenPrefixed, u32TryFrom_of_lt hlt, Option.getD_some, List.append_assoc,
    bind_of_read (readU32_append _ _)]
  exact readExact_append_of_length hlen.symm rest

theorem principal_short (p : Principal) : p.bytes.length < 2 ^ 32 :=
  lt_of_le_of_lt p.bounded (by decide)

theorem array_short {n : Nat} (h : n < 2 ^ 32) (a : ByteArr n) : a.toList.length < 2 ^ 32 := by
  rwa [a.toList_length]

theorem amount_short (n : Nat) : (encode 32 n).length < 2 ^ 32 := by
  rw [length_encode]
  decide

theorem ofPrincipal_some {p : Principal} {stored : StoredPrincipal}
    (h : StoredPrincipal.ofPrincipal p = some stored) : stored.principal = p := by
  rw [StoredPrincipal.ofPrincipal] at h
  split_ifs at h
  obtain rfl := Option.some.inj h
  rfl

theorem normalizeSubmitWrapRequest_some {caller : StoredPrincipal} {args : SubmitWrapRequestArgs}
    {normalized : NormalizedSubmitWrapRequest}
    (h : normalizeSubmitWrapRequest c caller args = some normalized) :
    args.amountE8s < 2 ^ 256 ∧ normalized.requestId = deriveWrapRequestId c caller.bytes
      args.assetId.bytes (encode 32 args.amountE8s) args.evmRecipient.toList args.evmNonce
        args.gasLimit := by
  rw [normalizeSubmitWrapRequest] at h
  split_ifs at h with hanonymous hamount
  split at h
  · rename_i assetId ledger hasset hledger
    obtain rfl := Option.some.inj h
    refine ⟨by omega, ?_⟩
    rw [← ofPrincipal_some hasset]
    rfl
  · exact absurd h (by simp)

theorem identifiedBy_wrapRequestId (c : Crypto) :
    IdentifiedBy c (WrapSubmission.StoredAs c) WrapSubmission.idPreimage
      WrapSubmission.identity where
  hashed := by
    rintro w id ⟨caller, normalized, hcaller, hnormal, rfl⟩
    rw [(normalizeSubmitWrapRequest_some hnormal).2, StoredPrincipal.bytes,
      ofPrincipal_some hcaller]
    rfl
  injective := by
    rintro ⟨caller, args⟩ ⟨caller', args'⟩ id id' ⟨_, _, -, hnormal, -⟩ ⟨_, _, -, hnormal', -⟩ h
    have hfits : args.amountE8s < 256 ^ 32 := (normalizeSubmitWrapRequest_some hnormal).1
    have hfits' : args'.amountE8s < 256 ^ 32 := (normalizeSubmitWrapRequest_some hnormal').1
    have hfields := List.append_cancel_left h
    obtain ⟨hcaller, hfields⟩ :=
      framed_hashLenPrefixed (principal_short _) (principal_short _) hfields
    obtain ⟨hasset, hfields⟩ :=
      framed_hashLenPrefixed (principal_short _) (principal_short _) hfields
    obtain ⟨hamount, hfields⟩ := framed_hashLenPrefixed (amount_short _) (amount_short _) hfields
    obtain ⟨hrecipient, hfields⟩ := framed_hashLenPrefixed (array_short (by decide) _)
      (array_short (by decide) _) hfields
    obtain ⟨hnonce, hgas⟩ := framed_u64Bytes trivial trivial hfields
    have hgas := framed_u64Bytes.injective trivial trivial hgas
    have hvalue : args.amountE8s = args'.amountE8s := by
      rw [← decode_encode_of_lt hfits, hamount, decode_encode_of_lt hfits']
    simp only [WrapSubmission.identity, WrapIdentity.mk.injEq]
    exact ⟨Principal.bytes_injective hcaller, Principal.bytes_injective hasset, hvalue,
      Subtype.ext hrecipient, hnonce, hgas⟩

theorem identifiedBy_nativeDepositRequestId (c : Crypto) :
    IdentifiedBy c (DepositSubmission.StoredAs c) DepositSubmission.idPreimage
      DepositSubmission.identity where
  hashed := by
    rintro d id ⟨caller, hcaller, rfl⟩
    rw [StoredPrincipal.bytes, ofPrincipal_some hcaller]
    rfl
  injective := by
    rintro ⟨caller, args⟩ ⟨caller', args'⟩ id id' - - h
    obtain ⟨hcaller, hdeposit⟩ := framed_hashLenPrefixed (principal_short _) (principal_short _)
      (List.append_cancel_left h)
    have hdeposit := framed_hashLenPrefixed.injective (array_short (by decide) _)
      (array_short (by decide) _) hdeposit
    exact Prod.ext (Principal.bytes_injective hcaller) (Subtype.ext hdeposit)

theorem deriveLogRequestId_some {txId id : TxId} {logIndex : Nat}
    (h : deriveLogRequestId c txId logIndex = some id) : logIndex < 2 ^ 32 ∧
      id = c.keccak256 (txId.toList ++ u32Bytes (UInt32.ofNat logIndex)) := by
  rw [deriveLogRequestId, u32TryFrom] at h
  split_ifs at h with hlt
  · exact ⟨hlt, (Option.some.inj h).symm⟩
  · exact absurd h (by simp)

theorem identifiedBy_logRequestId (c : Crypto) :
    IdentifiedBy c (LogPosition.StoredAs c) LogPosition.idPreimage id where
  hashed := by
    intro l requestId h
    exact (deriveLogRequestId_some h).2
  injective := by
    rintro ⟨txId, index⟩ ⟨txId', index'⟩ requestId requestId' h h' heq
    have hnat : (UInt32.ofNat index).toNat = index :=
      UInt32.toNat_ofNat_of_lt (deriveLogRequestId_some h).1
    have hnat' : (UInt32.ofNat index').toNat = index' :=
      UInt32.toNat_ofNat_of_lt (deriveLogRequestId_some h').1
    obtain ⟨htx, hindex⟩ := framed_byteArr 32 trivial trivial heq
    have hsame : UInt32.ofNat index = UInt32.ofNat index' :=
      framed_u32Bytes.injective trivial trivial hindex
    obtain rfl : txId = txId' := htx
    rw [← hnat, ← hnat', hsame]

theorem dedup_ids_injective (c : Crypto) :
    IdentifiedBy c (SubmitCall.StoredAs c) (SubmitCall.idPreimage c) SubmitCall.transaction ∧
      (∀ tx, (encodeIcSyntheticInput tx).length ≤ maxTxSize →
        decodeIcSyntheticHeader (encodeIcSyntheticInput tx) = some tx ∧
          ∀ tx', (encodeIcSyntheticInput tx').length ≤ maxTxSize →
            encodeIcSyntheticInput tx <+: encodeIcSyntheticInput tx' → tx = tx') ∧
      IdentifiedBy c (WrapSubmission.StoredAs c) WrapSubmission.idPreimage
        WrapSubmission.identity ∧
      IdentifiedBy c (DepositSubmission.StoredAs c) DepositSubmission.idPreimage
        DepositSubmission.identity ∧
      IdentifiedBy c (LogPosition.StoredAs c) LogPosition.idPreimage id := by
  refine ⟨identifiedBy_storedTxId c, fun tx hsize => ⟨decodeIcSynthetic_encode hsize, ?_⟩,
    identifiedBy_wrapRequestId c, identifiedBy_nativeDepositRequestId c,
    identifiedBy_logRequestId c⟩
  intro tx' hsize' hprefix
  exact framed_encodeIcSynthetic.eq_of_prefix hsize hsize' hprefix

end Kasane.Gateway
