import Kasane.Codec.Decode

namespace Kasane.Receipt

open BigEndian Codec

def maxReturnData : Nat := 32 * 1024

def maxLogsPerTx : Nat := 64

def maxLogTopics : Nat := 4

def maxLogData : Nat := 4096

def receiptContractAddrLen : Nat := 20

def receiptV2Extra : Nat := 8 + 16 + 16 + 16

def maxLogsSize : Nat := maxLogsPerTx * (20 + 4 + maxLogTopics * 32 + 4 + maxLogData)

def receiptMaxSize : Nat :=
  receiptV2Extra + 32 + 8 + 4 + 1 + 8 + 8 + 4 + maxReturnData + 1 + receiptContractAddrLen + 4 +
    maxLogsSize

def receiptV2Magic : Bytes := [0x72, 0x63, 0x70, 0x74, 0x76, 0x32, 0x00, 0x02]

abbrev TxId := ByteArr 32

structure LogEntry where
  address : ByteArr 20
  topics : List (ByteArr 32)
  data : Bytes
deriving DecidableEq

structure ReceiptLike where
  txId : TxId
  blockNumber : UInt64
  txIndex : UInt32
  status : UInt8
  gasUsed : UInt64
  effectiveGasPrice : UInt64
  l1DataFee : BitVec 128
  operatorFee : BitVec 128
  totalFee : BitVec 128
  returnDataHash : ByteArr 32
  returnData : Bytes
  contractAddress : Option (ByteArr receiptContractAddrLen)
  logs : List LogEntry
deriving DecidableEq

inductive ReceiptEncodeError where
  | invalidStatus
  | returnDataTooLarge
  | tooManyLogs
  | tooManyTopics
  | logDataTooLarge
  | lengthOverflow
deriving DecidableEq, Repr

def validReceiptStatus (status : UInt8) : Bool := decide (status ≤ 1)

def encodeContractAddress : Option (ByteArr receiptContractAddrLen) → Bytes
  | some addr => 1 :: addr.toList
  | none => 0 :: (zeroArr receiptContractAddrLen).toList

def encodeTopics (topics : List (ByteArr 32)) : Bytes := arrayBytes topics

def encodeLog (log : LogEntry) : Except ReceiptEncodeError Bytes :=
  if boundedLen log.topics.length maxLogTopics = false then .error .tooManyTopics
  else if boundedLen log.data.length maxLogData = false then .error .logDataTooLarge
  else
    match u32TryFrom log.topics.length, u32TryFrom log.data.length with
    | some topicsLen, some dataLen =>
        .ok (log.address.toList ++ (u32Bytes topicsLen ++ (encodeTopics log.topics ++
          (u32Bytes dataLen ++ log.data))))
    | _, _ => .error .lengthOverflow

def encodeLogs : List LogEntry → Except ReceiptEncodeError Bytes
  | [] => .ok []
  | log :: rest =>
      match encodeLog log with
      | .error e => .error e
      | .ok head =>
          match encodeLogs rest with
          | .error e => .error e
          | .ok tail => .ok (head ++ tail)

def encodeHead (r : ReceiptLike) : Bytes :=
  receiptV2Magic ++ (r.txId.toList ++ (u64Bytes r.blockNumber ++ (u32Bytes r.txIndex ++
    (r.status :: (u64Bytes r.gasUsed ++ (u64Bytes r.effectiveGasPrice ++
      (u128Bytes r.l1DataFee ++ (u128Bytes r.operatorFee ++ (u128Bytes r.totalFee ++
        r.returnDataHash.toList)))))))))

def encodeChecked (r : ReceiptLike) : Except ReceiptEncodeError Bytes :=
  if validReceiptStatus r.status = false then .error .invalidStatus
  else if boundedLen r.returnData.length maxReturnData = false then .error .returnDataTooLarge
  else if boundedLen r.logs.length maxLogsPerTx = false then .error .tooManyLogs
  else
    match u32TryFrom r.returnData.length, u32TryFrom r.logs.length with
    | some dataLen, some logsLen =>
        match encodeLogs r.logs with
        | .error e => .error e
        | .ok logs =>
            .ok (encodeHead r ++ (u32Bytes dataLen ++ (r.returnData ++
              (encodeContractAddress r.contractAddress ++ (u32Bytes logsLen ++ logs)))))
    | _, _ => .error .lengthOverflow

def corruptReceipt : ReceiptLike where
  txId := zeroArr 32
  blockNumber := 0
  txIndex := 0
  status := 0
  gasUsed := 0
  effectiveGasPrice := 0
  l1DataFee := 0
  operatorFee := 0
  totalFee := 0
  returnDataHash := zeroArr 32
  returnData := []
  contractAddress := none
  logs := []

def rawFallback : Bytes := encodeHead corruptReceipt ++ (u32Bytes 0 ++
  (0 :: (zeroArr receiptContractAddrLen).toList ++ u32Bytes 0))

def encodeFallbackReceipt : Bytes :=
  let encoded := match encodeChecked corruptReceipt with
    | .ok value => value
    | .error _ => rawFallback
  match encodeGuarded encoded receiptMaxSize with
  | .ok value => value
  | .error _ => List.replicate receiptMaxSize 0

def toBytes (r : ReceiptLike) : Bytes :=
  match encodeChecked r with
  | .error _ => encodeFallbackReceipt
  | .ok encoded =>
      match encodeGuarded encoded receiptMaxSize with
      | .ok value => value
      | .error _ => encodeFallbackReceipt

def readTopics (count : Nat) : Reader (List (ByteArr 32)) := readArrays 32 count

def logDataNew (topics : List (ByteArr 32)) (data : Bytes) : Option (List (ByteArr 32) × Bytes) :=
  if topics.length > 4 then none else some (topics, data)

def readLog : Reader LogEntry := fun data => do
  let (address, data) ← readArray 20 data
  let (topicsLen, data) ← readU32 data
  if boundedLen topicsLen.toNat maxLogTopics = false then none
  else
    let (topics, data) ← readTopics topicsLen.toNat data
    let (dataLen, data) ← readU32 data
    if boundedLen dataLen.toNat maxLogData = false then none
    else
      let (payload, data) ← readVec dataLen.toNat data
      let (topics, payload) ← logDataNew topics payload
      pure (⟨address, topics, payload⟩, data)

def readLogs : Nat → Reader (List LogEntry)
  | 0, data => some ([], data)
  | n + 1, data => do
      let (log, data) ← readLog data
      let (logs, data) ← readLogs n data
      pure (log :: logs, data)

def readFees (isV2 : Bool) : Reader (BitVec 128 × BitVec 128 × BitVec 128) := fun data =>
  if isV2 then do
    let (l1DataFee, data) ← readU128 data
    let (operatorFee, data) ← readU128 data
    let (totalFee, data) ← readU128 data
    pure ((l1DataFee, operatorFee, totalFee), data)
  else pure ((0, 0, 0), data)

def readContractAddress : Reader (Option (ByteArr receiptContractAddrLen)) := fun data => do
  let (hasContract, data) ← readU8 data
  let (raw, data) ← readArray receiptContractAddrLen data
  pure (if hasContract = 0 then none else some raw, data)

def decodeReceipt (bytes : Bytes) : Option ReceiptLike := do
  let isV2 := receiptV2Magic.isPrefixOf bytes
  let data := if isV2 then bytes.drop receiptV2Magic.length else bytes
  let (txId, data) ← readArray 32 data
  let (blockNumber, data) ← readU64 data
  let (txIndex, data) ← readU32 data
  let (status, data) ← readU8 data
  if validReceiptStatus status = false then none
  else
    let (gasUsed, data) ← readU64 data
    let (effectiveGasPrice, data) ← readU64 data
    let ((l1DataFee, operatorFee, totalFee), data) ← readFees isV2 data
    let (returnDataHash, data) ← readArray 32 data
    let (returnDataLen, data) ← readU32 data
    if boundedLen returnDataLen.toNat maxReturnData = false then none
    else
      let (returnData, data) ← readVec returnDataLen.toNat data
      let (contractAddress, data) ← readContractAddress data
      let (logsLen, data) ← readU32 data
      if boundedLen logsLen.toNat maxLogsPerTx = false then none
      else
        let (logs, _) ← readLogs logsLen.toNat data
        pure ⟨txId, blockNumber, txIndex, status, gasUsed, effectiveGasPrice, l1DataFee,
          operatorFee, totalFee, returnDataHash, returnData, contractAddress, logs⟩

def fromBytes (bytes : Bytes) : ReceiptLike :=
  if boundedLen bytes.length receiptMaxSize = false then corruptReceipt
  else (decodeReceipt bytes).getD corruptReceipt

end Kasane.Receipt
