import Kasane.Chain.Tx

namespace Kasane.Chain

open BigEndian Codec

def maxTxsPerBlock : Nat := 1024

def blockBaseLen : Nat := 8 + 32 + 32 + 8 + 8 + 8 + 8 + 20 + 32 + 32 + 4

def maxBlockDataSize : Nat := blockBaseLen + 32 * maxTxsPerBlock

structure BlockData where
  number : UInt64
  parentHash : ByteArr 32
  blockHash : ByteArr 32
  timestamp : UInt64
  baseFeePerGas : UInt64
  blockGasLimit : UInt64
  gasUsed : UInt64
  beneficiary : Address
  txIds : List TxId
  txListHash : ByteArr 32
  stateRoot : ByteArr 32
deriving DecidableEq

def corruptBlock : BlockData where
  number := 0
  parentHash := zeroArr 32
  blockHash := zeroArr 32
  timestamp := 0
  baseFeePerGas := 0
  blockGasLimit := 0
  gasUsed := 0
  beneficiary := zeroArr 20
  txIds := []
  txListHash := zeroArr 32
  stateRoot := zeroArr 32

def BlockData.encodeHead (b : BlockData) : Bytes :=
  u64Bytes b.number ++ (b.parentHash.toList ++ (b.blockHash.toList ++ (u64Bytes b.timestamp ++
    (u64Bytes b.baseFeePerGas ++ (u64Bytes b.blockGasLimit ++ (u64Bytes b.gasUsed ++
      (b.beneficiary.toList ++ (b.txListHash.toList ++ b.stateRoot.toList))))))))

def BlockData.encodeWith (b : BlockData) (len : UInt32) : Bytes :=
  b.encodeHead ++ (u32Bytes len ++ arrayBytes b.txIds)

def encodeFallbackBlock : Bytes :=
  match encodeGuarded (corruptBlock.encodeWith 0) maxBlockDataSize with
  | .ok value => value
  | .error _ => List.replicate maxBlockDataSize 0

def BlockData.toBytes (b : BlockData) : Bytes :=
  match u32TryFrom b.txIds.length with
  | none => encodeFallbackBlock
  | some len =>
      match encodeGuarded (b.encodeWith len) maxBlockDataSize with
      | .ok value => value
      | .error _ => encodeFallbackBlock

def variableItemsLenMatches (actualLen baseLen itemCount itemLen maxItems : Nat) : Bool :=
  decide (itemCount ≤ maxItems ∧ actualLen = baseLen + itemCount * itemLen)

def decodeBlock (data : Bytes) : Option BlockData := do
  let (number, rest) ← readU64 data
  let (parentHash, rest) ← readArray 32 rest
  let (blockHash, rest) ← readArray 32 rest
  let (timestamp, rest) ← readU64 rest
  let (baseFeePerGas, rest) ← readU64 rest
  let (blockGasLimit, rest) ← readU64 rest
  let (gasUsed, rest) ← readU64 rest
  let (beneficiary, rest) ← readArray 20 rest
  let (txListHash, rest) ← readArray 32 rest
  let (stateRoot, rest) ← readArray 32 rest
  let (txLen, rest) ← readU32 rest
  if variableItemsLenMatches data.length blockBaseLen txLen.toNat 32 maxTxsPerBlock = false then none
  else
    let (txIds, _) ← readArrays 32 txLen.toNat rest
    pure ⟨number, parentHash, blockHash, timestamp, baseFeePerGas, blockGasLimit, gasUsed,
      beneficiary, txIds, txListHash, stateRoot⟩

def BlockData.fromBytes (data : Bytes) : BlockData :=
  if data.length < blockBaseLen then corruptBlock else (decodeBlock data).getD corruptBlock

def isCorruptBlock (b : BlockData) : Bool :=
  decide (b.blockHash = zeroArr 32 ∧ b.parentHash = zeroArr 32 ∧ b.txIds = [])

theorem BlockData.length_encodeWith (b : BlockData) (len : UInt32) :
    (b.encodeWith len).length = blockBaseLen + b.txIds.length * 32 := by
  simp only [encodeWith, encodeHead, List.length_append, length_u64Bytes, length_u32Bytes,
    List.Vector.toList_length, length_arrayBytes, blockBaseLen]
  omega

theorem BlockData.toBytes_of_bounded {b : BlockData} (h : b.txIds.length ≤ maxTxsPerBlock) :
    b.toBytes = b.encodeWith (UInt32.ofNat b.txIds.length) := by
  have h32 : b.txIds.length < 2 ^ 32 := lt_of_le_of_lt h (by decide)
  have hfits : ¬ (b.encodeWith (UInt32.ofNat b.txIds.length)).length > maxBlockDataSize := by
    rw [length_encodeWith, maxBlockDataSize]
    omega
  simp only [toBytes, u32TryFrom_of_lt h32, encodeGuarded, hfits, if_false]

theorem decodeBlock_encodeWith {b : BlockData} (h : b.txIds.length ≤ maxTxsPerBlock) :
    decodeBlock (b.encodeWith (UInt32.ofNat b.txIds.length)) = some b := by
  have h32 : b.txIds.length < UInt32.size := lt_of_le_of_lt h (by decide)
  have hlen : (UInt32.ofNat b.txIds.length).toNat = b.txIds.length :=
    UInt32.toNat_ofNat_of_lt h32
  have hmatch : variableItemsLenMatches (blockBaseLen + b.txIds.length * 32) blockBaseLen
      b.txIds.length 32 maxTxsPerBlock = true := by
    simpa [variableItemsLenMatches] using h
  have hread := readArrays_append b.txIds []
  rw [List.append_nil] at hread
  have hbytes : b.encodeWith (UInt32.ofNat b.txIds.length) =
      u64Bytes b.number ++ (b.parentHash.toList ++ (b.blockHash.toList ++ (u64Bytes b.timestamp ++
        (u64Bytes b.baseFeePerGas ++ (u64Bytes b.blockGasLimit ++ (u64Bytes b.gasUsed ++
          (b.beneficiary.toList ++ (b.txListHash.toList ++ (b.stateRoot.toList ++
            (u32Bytes (UInt32.ofNat b.txIds.length) ++ arrayBytes b.txIds)))))))))) := by
    simp [BlockData.encodeWith, BlockData.encodeHead, List.append_assoc]
  rw [decodeBlock, BlockData.length_encodeWith, hbytes]
  simp only [↓bind_of_read (readU64_append _ _), ↓bind_of_read (readArray_append _ _),
    ↓bind_of_read (readU32_append _ _), hlen, hmatch, Bool.true_eq_false, ↓if_false,
    ↓bind_of_read hread, Option.pure_def]

theorem BlockData.fromBytes_toBytes {b : BlockData} (h : b.txIds.length ≤ maxTxsPerBlock) :
    fromBytes b.toBytes = b := by
  have hlen : ¬ (b.encodeWith (UInt32.ofNat b.txIds.length)).length < blockBaseLen := by
    rw [length_encodeWith]
    omega
  rw [toBytes_of_bounded h, fromBytes, if_neg hlen, decodeBlock_encodeWith h]
  rfl

end Kasane.Chain
