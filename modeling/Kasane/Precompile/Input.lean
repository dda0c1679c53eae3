import Kasane.Receipt.Codec

namespace Kasane.Precompile

open BigEndian Codec Receipt

abbrev Address := ByteArr 20

abbrev U256 := BitVec 256

def u256Max : U256 := BitVec.allOnes 256

def u256Bytes (x : U256) : Bytes := encode 32 x.toNat

def u256OfBytes (bytes : Bytes) : U256 := BitVec.ofNat 256 (decode bytes)

def reservedAddress (last : UInt8) : Address :=
  ⟨List.replicate 16 0 ++ [0xff, 0xff, 0x00, last], by simp⟩

def wrapPrecompileAddress : Address := reservedAddress 0x01

def nativeWithdrawPrecompileAddress : Address := reservedAddress 0x02

def icpQueryPrecompileAddress : Address := reservedAddress 0x03

def icpUpdateIntentPrecompileAddress : Address := reservedAddress 0x04

def zeroAddress : Address := zeroArr 20

def maxFieldLen : Nat := 120

def maxPrincipalLen : Nat := 29

def compactUnwrapFormatVersion : UInt8 := 1

def compactNativeWithdrawFormatVersion : UInt8 := 1

def compactPrincipalFieldLen : Nat := 1 + maxPrincipalLen

def compactUnwrapInputLen : Nat := 1 + compactPrincipalFieldLen * 2 + 32

def compactNativeWithdrawInputLen : Nat := 1 + compactPrincipalFieldLen

structure UnwrapIntent where
  assetId : Bytes
  amount : ByteArr 32
  recipient : Bytes
deriving DecidableEq

structure NativeWithdrawIntent where
  amountE8s : ByteArr 32
  recipient : Bytes
deriving DecidableEq

structure IcpUpdateIntent where
  target : Bytes
  method : Bytes
  arg : Bytes
deriving DecidableEq

def maxQueryMethodLen : Nat := 64

def maxIcpUpdateArgLen : Nat := 3997

def isAscii (bytes : Bytes) : Bool := bytes.all (fun b => decide (b.toNat < 128))

def isValidPrincipalBytes (len : Nat) : Bool := decide (1 ≤ len ∧ len ≤ maxPrincipalLen)

def readCompactPrincipal (input : Bytes) : Except String (Bytes × Bytes) :=
  match input with
  | [] => .error "wrap.arg.abi_invalid"
  | len :: rest =>
      if isValidPrincipalBytes len.toNat = false then .error "wrap.arg.principal_invalid"
      else
        match readExact maxPrincipalLen rest with
        | none => .error "wrap.arg.abi_invalid"
        | some (slot, rest) =>
            if (slot.drop len.toNat).any (fun byte => decide (byte ≠ 0)) then
              .error "wrap.arg.padding_invalid"
            else .ok (slot.take len.toNat, rest)

def parseCompactInput (input : Bytes) : Except String UnwrapIntent :=
  if input.length ≠ compactUnwrapInputLen then .error "wrap.arg.abi_invalid"
  else if input.head? ≠ some compactUnwrapFormatVersion then .error "wrap.arg.abi_invalid"
  else do
    let (assetId, rest) ← readCompactPrincipal (input.drop 1)
    match readArray 32 rest with
    | none => .error "wrap.arg.amount_invalid"
    | some (amount, rest) => do
        let (recipient, rest) ← readCompactPrincipal rest
        if rest ≠ [] then .error "wrap.arg.abi_invalid" else .ok ⟨assetId, amount, recipient⟩

def parseInput (input : Bytes) : Except String UnwrapIntent := parseCompactInput input

def parseNativeWithdrawInput (input : Bytes) : Except String Bytes :=
  if input.length ≠ compactNativeWithdrawInputLen then .error "native_withdraw.arg.abi_invalid"
  else if input.head? ≠ some compactNativeWithdrawFormatVersion then
    .error "native_withdraw.arg.abi_invalid"
  else do
    let (recipient, rest) ← readCompactPrincipal (input.drop 1)
    if recipient = [4] then .error "native_withdraw.recipient_anonymous"
    else if rest ≠ [] then .error "native_withdraw.arg.abi_invalid"
    else .ok recipient

def encodeLogData (intent : UnwrapIntent) : Bytes :=
  UInt8.ofNat intent.assetId.length :: (intent.assetId ++ (intent.amount.toList ++
    (UInt8.ofNat intent.recipient.length :: intent.recipient)))

def encodeNativeWithdrawLogData (intent : NativeWithdrawIntent) : Bytes :=
  intent.amountE8s.toList ++ (UInt8.ofNat intent.recipient.length :: intent.recipient)

def readLenPrefixed : Reader Bytes := fun data =>
  match data with
  | [] => none
  | len :: rest =>
      if len.toNat = 0 ∨ len.toNat > maxFieldLen then none else readExact len.toNat rest

def wrapEventSignature : Bytes := "KasaneUnwrapRequest(bytes)".toUTF8.toList

def nativeWithdrawEventSignature : Bytes := "KasaneNativeWithdrawalRequest(bytes)".toUTF8.toList

def icpUpdateIntentEventSignature : Bytes := "KasaneIcpUpdateIntent(bytes)".toUTF8.toList

def approvalEventSignature : Bytes := "Approval(address,address,uint256)".toUTF8.toList

def transferEventSignature : Bytes := "Transfer(address,address,uint256)".toUTF8.toList

section

variable (keccak256 : Bytes → ByteArr 32)

def nativeWithdrawLog (intent : NativeWithdrawIntent) : LogEntry where
  address := nativeWithdrawPrecompileAddress
  topics := [keccak256 nativeWithdrawEventSignature]
  data := encodeNativeWithdrawLogData intent

def unwrapLog (intent : UnwrapIntent) : LogEntry where
  address := wrapPrecompileAddress
  topics := [keccak256 wrapEventSignature]
  data := encodeLogData intent

def nativeWithdrawIntentFromLog (log : LogEntry) : Option NativeWithdrawIntent :=
  if log.address ≠ nativeWithdrawPrecompileAddress then none
  else if log.topics ≠ [keccak256 nativeWithdrawEventSignature] then none
  else do
    let (amountE8s, rest) ← readArray 32 log.data
    let (recipient, rest) ← readLenPrefixed rest
    if rest ≠ [] then none else pure ⟨amountE8s, recipient⟩

def unwrapIntentFromLog (log : LogEntry) : Option UnwrapIntent :=
  if log.address ≠ wrapPrecompileAddress then none
  else if log.topics ≠ [keccak256 wrapEventSignature] then none
  else do
    let (assetId, rest) ← readLenPrefixed log.data
    let (amount, rest) ← readArray 32 rest
    let (recipient, rest) ← readLenPrefixed rest
    if rest ≠ [] then none else pure ⟨assetId, amount, recipient⟩

def icpUpdateIntentFromLog (log : LogEntry) : Option IcpUpdateIntent :=
  if log.address ≠ icpUpdateIntentPrecompileAddress then none
  else if log.topics ≠ [keccak256 icpUpdateIntentEventSignature] then none
  else do
    let (target, rest) ← readLenPrefixed log.data
    if target.length > maxPrincipalLen then none
    else
      let (method, rest) ← readLenPrefixed rest
      if method.length > maxQueryMethodLen ∨ isAscii method = false then none
      else
        let (argLen, rest) ← readU32 rest
        if argLen.toNat > maxIcpUpdateArgLen then none
        else
          let (arg, rest) ← readExact argLen.toNat rest
          if rest ≠ [] then none else pure ⟨target, method, arg⟩

end

theorem readCompactPrincipal_ok {input recipient rest : Bytes}
    (h : readCompactPrincipal input = .ok (recipient, rest)) :
    1 ≤ recipient.length ∧ recipient.length ≤ maxPrincipalLen := by
  unfold readCompactPrincipal at h
  split at h
  · exact absurd h (by simp)
  · rename_i len tail
    split_ifs at h with hlen
    split at h
    · exact absurd h (by simp)
    · rename_i slot rest' hread
      split_ifs at h with hpad
      obtain ⟨rfl, -⟩ := Prod.mk.inj (Except.ok.inj h)
      have hbounds : 1 ≤ len.toNat ∧ len.toNat ≤ maxPrincipalLen := by
        simpa [isValidPrincipalBytes] using hlen
      have hslot : slot.length = maxPrincipalLen := by
        simp only [readExact] at hread
        split_ifs at hread with hgt
        obtain ⟨rfl, -⟩ := Prod.mk.inj (Option.some.inj hread)
        exact List.length_take_of_le (not_lt.mp hgt)
      rw [List.length_take, hslot, min_eq_left hbounds.2]
      exact hbounds

theorem parseNativeWithdrawInput_ok {input recipient : Bytes}
    (h : parseNativeWithdrawInput input = .ok recipient) :
    1 ≤ recipient.length ∧ recipient.length ≤ maxPrincipalLen := by
  rw [parseNativeWithdrawInput] at h
  split_ifs at h with hlen hver
  obtain ⟨⟨parsed, rest⟩, hread, hbody⟩ := bind_eq_ok.mp h
  dsimp only at hbody
  split_ifs at hbody with hanon hrest
  obtain rfl := Except.ok.inj hbody
  exact readCompactPrincipal_ok hread

theorem readLenPrefixed_cons {field : Bytes} (hpos : 1 ≤ field.length)
    (hle : field.length ≤ maxFieldLen) (rest : Bytes) :
    readLenPrefixed (UInt8.ofNat field.length :: (field ++ rest)) = some (field, rest) := by
  have hlt : field.length < UInt8.size := lt_of_le_of_lt hle (by decide)
  have hnat : (UInt8.ofNat field.length).toNat = field.length := UInt8.toNat_ofNat_of_lt hlt
  have hne : ¬ (field.length = 0 ∨ field.length > maxFieldLen) := by omega
  simp only [readLenPrefixed, hnat, if_neg hne, readExact_append]

theorem nativeWithdrawIntentFromLog_log (keccak256 : Bytes → ByteArr 32)
    (intent : NativeWithdrawIntent) (hpos : 1 ≤ intent.recipient.length)
    (hle : intent.recipient.length ≤ maxPrincipalLen) :
    nativeWithdrawIntentFromLog keccak256 (nativeWithdrawLog keccak256 intent) = some intent := by
  have hfield : intent.recipient.length ≤ maxFieldLen := le_trans hle (by decide)
  have hread := readLenPrefixed_cons hpos hfield []
  rw [List.append_nil] at hread
  simp [nativeWithdrawIntentFromLog, nativeWithdrawLog, encodeNativeWithdrawLogData, hread]

end Kasane.Precompile
