import Kasane.Codec.Decode
import Kasane.Lib.Word
import Mathlib.Tactic.SplitIfs

namespace Kasane.Chain

open BigEndian Codec Word

abbrev TxId := ByteArr 32

abbrev Address := ByteArr 20

def maxTxSize : Nat := 128 * 1024

def maxPrincipalLen : Nat := 29

structure Principal where
  bytes : Bytes
  bounded : bytes.length ≤ maxPrincipalLen
deriving DecidableEq

theorem Principal.bytes_injective : Function.Injective Principal.bytes := by
  rintro ⟨a, ha⟩ ⟨b, hb⟩ h
  simpa using h

instance : LinearOrder Principal :=
  LinearOrder.lift' (fun p => digits p.bytes)
    (fun _ _ h => Principal.bytes_injective (digits_injective h))

def Principal.empty : Principal := ⟨[], Nat.zero_le _⟩

inductive TxKind where
  | ethSigned
  | icSynthetic
deriving DecidableEq, Repr

def TxKind.toU8 : TxKind → UInt8
  | .ethSigned => 0x01
  | .icSynthetic => 0x02

structure RecoveredTx where
  sender : Address
  dest : Option Address
  nonce : Nat
  value : Nat
  input : Bytes
  gasLimit : Nat
  gasPrice : Option Nat
  maxFeePerGas : Option Nat
  maxPriorityFeePerGas : Option Nat
  chainId : Option Nat
  accessList : List (Address × List (ByteArr 32))
  txType : Nat
deriving DecidableEq

structure TxEnv where
  caller : Address
  gasLimit : Nat
  gasPrice : Nat
  kind : Option Address
  value : Nat
  data : Bytes
  nonce : Nat
  chainId : Option Nat
  accessList : List (Address × List (ByteArr 32))
  gasPriorityFee : Option Nat
  txType : Nat
deriving DecidableEq

structure Crypto where
  keccak256 : Bytes → ByteArr 32
  deriveEvmAddress : Bytes → Option Address
  recoverEthTx : Bytes → Option RecoveredTx

structure IcSyntheticTxInput where
  dest : Option Address
  value : ByteArr 32
  gasLimit : UInt64
  nonce : UInt64
  maxFeePerGas : BitVec 128
  maxPriorityFeePerGas : BitVec 128
  data : Bytes
deriving DecidableEq

def icTxBaseHeaderLen : Nat := 1 + 32 + 8 + 8 + 16 + 16 + 4

def encodeIcSyntheticTo : Option Address → Bytes
  | some dest => 1 :: dest.toList
  | none => [0]

def encodeIcSyntheticInput (input : IcSyntheticTxInput) : Bytes :=
  encodeIcSyntheticTo input.dest ++ (input.value.toList ++ (u64Bytes input.gasLimit ++
    (u64Bytes input.nonce ++ (u128Bytes input.maxFeePerGas ++
      (u128Bytes input.maxPriorityFeePerGas ++
        (u32Bytes ((u32TryFrom input.data.length).getD (UInt32.ofNat u32Max)) ++ input.data))))))

def readIcSyntheticTo (data : Bytes) : Option (Option Address × Bytes) :=
  match data with
  | 0 :: rest => some (none, rest)
  | 1 :: rest => (readArray 20 rest).map (fun r => (some r.1, r.2))
  | _ => none

def decodeIcSyntheticHeader (bytes : Bytes) : Option IcSyntheticTxInput :=
  if bytes.length < icTxBaseHeaderLen then none
  else do
    let (dest, data) ← readIcSyntheticTo bytes
    let (value, data) ← readArray 32 data
    let (gasLimit, data) ← readU64 data
    let (nonce, data) ← readU64 data
    let (maxFee, data) ← readU128 data
    let (maxPriority, data) ← readU128 data
    let (dataLen, data) ← readU32 data
    if data.length ≠ dataLen.toNat ∨ dataLen.toNat > maxTxSize then none
    else some ⟨dest, value, gasLimit, nonce, maxFee, maxPriority, data⟩

def chainId : Nat := 4801360

def decodeIcSynthetic (caller : Address) (bytes : Bytes) : Option TxEnv :=
  (decodeIcSyntheticHeader bytes).map (fun header =>
    { caller := caller
      gasLimit := header.gasLimit.toNat
      gasPrice := header.maxFeePerGas.toNat
      kind := header.dest
      value := decode header.value.toList
      data := header.data
      nonce := header.nonce.toNat
      chainId := some chainId
      accessList := []
      gasPriorityFee := some header.maxPriorityFeePerGas.toNat
      txType := 2 })

def decodedToTxEnv (decoded : RecoveredTx) : TxEnv where
  caller := decoded.sender
  gasLimit := decoded.gasLimit
  gasPrice := (decoded.gasPrice.or decoded.maxFeePerGas).getD 0
  kind := decoded.dest
  value := decoded.value
  data := decoded.input
  nonce := decoded.nonce
  chainId := decoded.chainId
  accessList := decoded.accessList
  gasPriorityFee := decoded.maxPriorityFeePerGas
  txType := decoded.txType

def rejectedTxType (first : UInt8) : Bool := decide (first = 0x03 ∨ first = 0x04)

def decodeEthRawTx (c : Crypto) (bytes : Bytes) : Option TxEnv :=
  match bytes with
  | [] => none
  | first :: _ =>
      if bytes.length > maxTxSize then none
      else if rejectedTxType first then none
      else (c.recoverEthTx bytes).map decodedToTxEnv

def decodeTx (c : Crypto) (kind : TxKind) (caller : Address) (bytes : Bytes) : Option TxEnv :=
  match kind with
  | .icSynthetic => decodeIcSynthetic caller bytes
  | .ethSigned => decodeEthRawTx c bytes

def feeFieldsFromTxEnv (tx : TxEnv) : Nat × Nat × Bool :=
  (tx.gasPrice, tx.gasPriorityFee.getD 0, tx.gasPriorityFee.isSome)

def storedTxVersion : UInt8 := 3

structure StoredTxBytes where
  version : UInt8
  txId : TxId
  kind : TxKind
  raw : Bytes
  callerEvm : Option Address
  canisterId : Principal
  callerPrincipal : Principal
  maxFeePerGas : Nat
  maxPriorityFeePerGas : Nat
  isDynamicFee : Bool
deriving DecidableEq

structure StoredTx where
  kind : TxKind
  raw : Bytes
  callerEvm : Option Address
  canisterId : Principal
  callerPrincipal : Principal
  maxFeePerGas : Nat
  maxPriorityFeePerGas : Nat
  isDynamicFee : Bool
  txId : TxId
deriving DecidableEq

inductive StoredTxError where
  | unsupportedVersion (version : UInt8)
  | emptyBytes
  | missingCaller
  | missingPrincipal
  | derivationFailed
  | callerMismatch
  | txIdMismatch
deriving DecidableEq, Repr

def storedTxDomain : Bytes :=
  [0x69, 0x63, 0x2d, 0x65, 0x76, 0x6d, 0x3a, 0x73, 0x74, 0x6f, 0x72, 0x65, 0x64, 0x74, 0x78,
    0x3a, 0x76, 0x32]

def lenPrefixed (bytes : Bytes) : Bytes :=
  encode 2 (if bytes.length < 2 ^ 16 then bytes.length else 0) ++ bytes

def storedTxId (c : Crypto) (kind : TxKind) (raw : Bytes) (callerEvm : Option Address)
    (canisterId callerPrincipal : Option Bytes) : TxId :=
  c.keccak256 (storedTxDomain ++ (kind.toU8 :: (raw ++
    ((callerEvm.map List.Vector.toList).getD [] ++ ((canisterId.map lenPrefixed).getD [] ++
      (callerPrincipal.map lenPrefixed).getD [])))))

def StoredTx.tryFrom (c : Crypto) (value : StoredTxBytes) : Except StoredTxError StoredTx :=
  let synthetic := decide (value.kind = .icSynthetic)
  if value.version ≠ storedTxVersion then .error (.unsupportedVersion value.version)
  else if value.raw = [] then .error .emptyBytes
  else if synthetic ∧ value.callerEvm = none then .error .missingCaller
  else if synthetic ∧ (value.canisterId.bytes = [] ∨ value.callerPrincipal.bytes = []) then
    .error .missingPrincipal
  else if ¬ synthetic ∧ value.canisterId.bytes ≠ [] then .error .missingPrincipal
  else if value.txId ≠ storedTxId c value.kind value.raw value.callerEvm
      (if synthetic then some value.canisterId.bytes else none)
      (if synthetic then some value.callerPrincipal.bytes else none) then .error .txIdMismatch
  else if synthetic ∧ c.deriveEvmAddress value.callerPrincipal.bytes = none then
    .error .derivationFailed
  else if synthetic ∧ value.callerEvm ≠ c.deriveEvmAddress value.callerPrincipal.bytes then
    .error .callerMismatch
  else .ok
    { kind := value.kind
      raw := value.raw
      callerEvm := value.callerEvm
      canisterId := value.canisterId
      callerPrincipal := value.callerPrincipal
      maxFeePerGas := value.maxFeePerGas
      maxPriorityFeePerGas := value.maxPriorityFeePerGas
      isDynamicFee := value.isDynamicFee
      txId := value.txId }

def effectiveGasPrice (maxFee maxPriority baseFee : Nat) : Option Nat :=
  if maxPriority > maxFee then none
  else if maxFee < baseFee then none
  else
    let capped := min maxFee (saturatingAdd u128Max baseFee maxPriority)
    if capped ≤ u64Max then some capped else none

def minFeeSatisfied (gasPrice : Nat) (gasPriorityFee : Option Nat)
    (baseFee minPriorityFee minGasPrice : Nat) : Bool :=
  match gasPriorityFee with
  | some priority =>
      if priority < minPriorityFee then false
      else decide (gasPrice ≥ baseFee ∧ gasPrice ≥ saturatingAdd u128Max baseFee minPriorityFee)
  | none => decide (gasPrice ≥ minGasPrice)

def StoredTx.effectiveGasPrice (tx : StoredTx) (baseFee : Nat) : Option Nat :=
  Chain.effectiveGasPrice tx.maxFeePerGas
    (if tx.isDynamicFee then tx.maxPriorityFeePerGas else 0) baseFee

end Kasane.Chain
