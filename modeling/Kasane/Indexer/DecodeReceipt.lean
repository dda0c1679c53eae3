import Kasane.Export.Payloads
import Kasane.Receipt.Stored

namespace Kasane.Indexer

open BigEndian Codec Chain Export
open Receipt (ReceiptLike LogEntry)

structure ReceiptStatusInfo where
  txHash : Bytes
  status : Nat
  contractAddress : Option Bytes
  blockNumber : Nat
  txIndex : Nat
deriving DecidableEq

structure Erc20TransferInfo where
  txHash : Bytes
  blockNumber : Nat
  txIndex : Nat
  logIndex : Nat
  tokenAddress : Bytes
  fromAddress : Bytes
  toAddress : Bytes
  amount : Nat
deriving DecidableEq

structure DecodedReceiptsInfo where
  statuses : List ReceiptStatusInfo
  tokenTransfers : List Erc20TransferInfo
  skippedTokenTransfers : Nat
deriving DecidableEq

structure DecodedTransfer where
  logIndex : Nat
  tokenAddress : Bytes
  fromAddress : Bytes
  toAddress : Bytes
  amount : Nat
deriving DecidableEq

structure DecodedReceipt where
  blockNumber : Nat
  txIndex : Nat
  status : Nat
  contractAddress : Option Bytes
  tokenTransfers : List DecodedTransfer
  skippedTokenTransfers : Nat
deriving DecidableEq

abbrev Scan (A : Type) := Bytes → Except String (A × Bytes)

def receiptV2Magic : Bytes := [0x72, 0x63, 0x70, 0x74, 0x76, 0x32, 0x00, 0x02]

def erc20TransferTopic0 : Bytes :=
  [0xdd, 0xf2, 0x52, 0xad, 0x1b, 0xe2, 0xc8, 0x9b, 0x69, 0xc2, 0xb0, 0x68, 0xfc, 0x37, 0x8d, 0xaa,
    0x95, 0x2b, 0xa7, 0xf1, 0x63, 0xc4, 0xa1, 0x16, 0x28, 0xf5, 0x5a, 0x4d, 0xf5, 0x23, 0xb3, 0xef]

def readSlice (len : Nat) (err : String) : Scan Bytes := fun data =>
  if data.length < len then .error err else .ok (data.take len, data.drop len)

def readU64Safe (err : String) : Scan Nat := fun data =>
  if data.length < 8 then .error err
  else .ok (decode (data.take 4) * 2 ^ 32 + decode ((data.drop 4).take 4), data.drop 8)

def readU32Safe (err : String) : Scan Nat := fun data =>
  if data.length < 4 then .error err else .ok (decode (data.take 4), data.drop 4)

def readU8Safe (err : String) : Scan Nat
  | [] => .error err
  | b :: data => .ok (b.toNat, data)

def bytesToBigInt (bytes : Bytes) : Nat := bytes.foldl (fun out value => out <<< 8 ||| value.toNat) 0

def isErc20TransferTopic : List Bytes → Bool
  | [] => false
  | topic0 :: _ => decide (topic0 = erc20TransferTopic0)

inductive LogVerdict where
  | other
  | skipped
  | transfer (info : DecodedTransfer)

def LogVerdict.record : LogVerdict → List DecodedTransfer × Nat → List DecodedTransfer × Nat
  | .other, acc => acc
  | .skipped, acc => (acc.1, acc.2 + 1)
  | .transfer info, acc => (acc.1 ++ [info], acc.2)

def logVerdict (logIndex : Nat) (tokenAddress : Bytes) (topics : List Bytes) (data : Bytes) :
    LogVerdict :=
  if isErc20TransferTopic topics = false then .other
  else
    match topics with
    | _ :: topic1 :: topic2 :: _ =>
        if topic1.length ≠ 32 ∨ topic2.length ≠ 32 then .skipped
        else if data.length < 32 then .skipped
        else .transfer ⟨logIndex, tokenAddress, topic1.drop 12, topic2.drop 12,
          bytesToBigInt (data.take 32)⟩
    | _ => .skipped

def readTopics : Nat → Scan (List Bytes)
  | 0, data => .ok ([], data)
  | n + 1, data => do
      let (topic, data) ← readSlice 32 "receipt log topic missing" data
      let (topics, data) ← readTopics n data
      pure (topic :: topics, data)

def readLogs : Nat → Nat → List DecodedTransfer × Nat → Scan (List DecodedTransfer × Nat)
  | 0, _, acc, data => .ok (acc, data)
  | n + 1, logIndex, acc, data => do
      let (tokenAddress, data) ← readSlice 20 "receipt log address missing" data
      let (topicsLen, data) ← readU32Safe "receipt log topics_len missing" data
      let (topics, data) ← readTopics topicsLen data
      let (dataLen, data) ← readU32Safe "receipt log data_len missing" data
      let (logData, data) ← readSlice dataLen "receipt log data missing" data
      readLogs n (logIndex + 1) ((logVerdict logIndex tokenAddress topics logData).record acc) data

def decodeReceipt (encoded : Bytes) : Except String DecodedReceipt := do
  let isV2 := receiptV2Magic.isPrefixOf encoded
  let data := if isV2 then encoded.drop receiptV2Magic.length else encoded
  let (_, data) ← readSlice 32 "receipt tx_id missing" data
  let (blockNumber, data) ← readU64Safe "receipt block_number missing" data
  let (txIndex, data) ← readU32Safe "receipt tx_index missing" data
  let (status, data) ← readU8Safe "receipt status missing" data
  if status ≠ 0 ∧ status ≠ 1 then .error "receipt status must be 0 or 1"
  else
    let data := data.drop (8 + 8)
    let data := if isV2 then data.drop (16 * 3) else data
    let (_, data) ← readSlice 32 "receipt return_data_hash missing" data
    let (returnDataLen, data) ← readU32Safe "receipt return_data_len missing" data
    let (_, data) ← readSlice returnDataLen "receipt return_data missing" data
    let (contractFlag, data) ← readU8Safe "receipt contract flag missing" data
    let (contractAddress, data) ← readSlice 20 "receipt contract address bytes missing" data
    let (logsLen, data) ← readU32Safe "receipt logs_len missing" data
    let (logs, _) ← readLogs logsLen 0 ([], 0) data
    pure ⟨blockNumber, txIndex, status, if contractFlag = 1 then some contractAddress else none,
      logs.1, logs.2⟩

def DecodedTransfer.info (txHash : Bytes) (blockNumber txIndex : Nat) (t : DecodedTransfer) :
    Erc20TransferInfo :=
  ⟨txHash, blockNumber, txIndex, t.logIndex, t.tokenAddress, t.fromAddress, t.toAddress, t.amount⟩

def DecodedReceiptsInfo.push (acc : DecodedReceiptsInfo) (txHash : Bytes) (r : DecodedReceipt) :
    DecodedReceiptsInfo where
  statuses := acc.statuses ++ [⟨txHash, r.status, r.contractAddress, r.blockNumber, r.txIndex⟩]
  tokenTransfers := acc.tokenTransfers ++
    r.tokenTransfers.map (DecodedTransfer.info txHash r.blockNumber r.txIndex)
  skippedTokenTransfers := acc.skippedTokenTransfers + r.skippedTokenTransfers

def decodeReceiptsLoop : Nat → DecodedReceiptsInfo → Bytes → Except String DecodedReceiptsInfo
  | 0, acc, _ => .ok acc
  | fuel + 1, acc, data =>
      if data.length = 0 then .ok acc
      else if data.length < 32 + 4 then .error "receipts payload truncated"
      else do
        let (receiptLen, rest) ← readU32Safe "receipts payload length header missing" (data.drop 32)
        if rest.length < receiptLen then .error "receipts payload length mismatch"
        else
          let decoded ← decodeReceipt (rest.take receiptLen)
          decodeReceiptsLoop fuel (acc.push (data.take 32) decoded) (rest.drop receiptLen)

-- a round reads 36 bytes or more, so the length is fuel enough
def decodeReceiptsPayload (payload : Bytes) : Except String DecodedReceiptsInfo :=
  decodeReceiptsLoop payload.length ⟨[], [], 0⟩ payload

def IsTransferLog (log : LogEntry) : Prop :=
  log.topics.head?.map List.Vector.toList = some erc20TransferTopic0

instance isTransferLogDecidable (log : LogEntry) : Decidable (IsTransferLog log) :=
  inferInstanceAs (Decidable (_ = _))

-- the transfer that a log tells, when it is a well-formed Transfer event
def toldTransfer (logIndex : Nat) (log : LogEntry) : Option DecodedTransfer :=
  match log.topics with
  | topic0 :: sender :: recipient :: _ =>
      if topic0.toList = erc20TransferTopic0 ∧ 32 ≤ log.data.length then
        some ⟨logIndex, log.address.toList, sender.toList.drop 12, recipient.toList.drop 12,
          decode (log.data.take 32)⟩
      else none
  | _ => none

def toldTransfers (r : ReceiptLike) : List DecodedTransfer :=
  r.logs.zipIdx.filterMap (fun e => toldTransfer e.2 e.1)

def malformedTransfers (r : ReceiptLike) : Nat :=
  r.logs.countP (fun log => decide (IsTransferLog log ∧ toldTransfer 0 log = none))

def receiptView (r : ReceiptLike) : DecodedReceipt where
  blockNumber := r.blockNumber.toNat
  txIndex := r.txIndex.toNat
  status := r.status.toNat
  contractAddress := r.contractAddress.map List.Vector.toList
  tokenTransfers := toldTransfers r
  skippedTokenTransfers := malformedTransfers r

def receiptsView (receipts : List (TxId × ReceiptLike)) : DecodedReceiptsInfo where
  statuses := receipts.map (fun e => ⟨e.1.toList, e.2.status.toNat,
    e.2.contractAddress.map List.Vector.toList, e.2.blockNumber.toNat, e.2.txIndex.toNat⟩)
  tokenTransfers := receipts.flatMap (fun e => (toldTransfers e.2).map
    (DecodedTransfer.info e.1.toList e.2.blockNumber.toNat e.2.txIndex.toNat))
  skippedTokenTransfers := (receipts.map (fun e => malformedTransfers e.2)).sum

theorem bind_of_scan {A B : Type} {read : Except String (A × Bytes)} {x : A} {rest : Bytes}
    (h : read = .ok (x, rest)) (f : A × Bytes → Except String B) : read >>= f = f (x, rest) := by
  rw [h]
  rfl

theorem readSlice_append {n : Nat} {xs : Bytes} (h : xs.length = n) (err : String) (rest : Bytes) :
    readSlice n err (xs ++ rest) = .ok (xs, rest) := by
  subst h
  simp [readSlice]

theorem readSlice_array {n : Nat} (a : ByteArr n) (err : String) (rest : Bytes) :
    readSlice n err (a.toList ++ rest) = .ok (a.toList, rest) :=
  readSlice_append a.toList_length err rest

theorem readU32Safe_append (x : UInt32) (err : String) (rest : Bytes) :
    readU32Safe err (u32Bytes x ++ rest) = .ok (x.toNat, rest) := by
  have hx : x.toNat < 256 ^ 4 := x.toNat_lt
  rw [readU32Safe, List.take_left' (length_u32Bytes x), List.drop_left' (length_u32Bytes x), u32Bytes,
    decode_encode_of_lt hx]
  simp

theorem decode_append (xs ys : Bytes) :
    decode (xs ++ ys) = decode xs * 256 ^ ys.length + decode ys := by
  induction ys using List.reverseRecOn with
  | nil => simp [decode]
  | append_singleton ys y ih =>
      rw [← List.append_assoc, decode_append_singleton, decode_append_singleton, ih,
        List.length_append, List.length_singleton, pow_succ]
      ring

theorem readU64Safe_append (x : UInt64) (err : String) (rest : Bytes) :
    readU64Safe err (u64Bytes x ++ rest) = .ok (x.toNat, rest) := by
  have hx : x.toNat < 256 ^ 8 := x.toNat_lt
  have hlow : ((u64Bytes x).drop 4).length = 4 := by simp
  have hhalves : decode ((u64Bytes x).take 4) * 2 ^ 32 + decode ((u64Bytes x).drop 4) = x.toNat := by
    have happend := decode_append ((u64Bytes x).take 4) ((u64Bytes x).drop 4)
    rw [List.take_append_drop, hlow, u64Bytes, decode_encode_of_lt hx] at happend
    exact happend.symm
  have htake : (u64Bytes x ++ rest).take 4 = (u64Bytes x).take 4 :=
    List.take_append_of_le_length (by simp)
  have hdrop : ((u64Bytes x ++ rest).drop 4).take 4 = (u64Bytes x).drop 4 := by
    rw [List.drop_append_of_le_length (by simp), List.take_left' hlow]
  rw [readU64Safe, htake, hdrop, hhalves, List.drop_left' (length_u64Bytes x)]
  simp

theorem bytesToBigInt_eq (bytes : Bytes) : bytesToBigInt bytes = decode bytes := by
  have hstep : (fun (out : Nat) (value : UInt8) => out <<< 8 ||| value.toNat) =
      (fun out value => out * 256 + value.toNat) := by
    funext out value
    rw [← Nat.shiftLeft_add_eq_or_of_lt value.toNat_lt, Nat.shiftLeft_eq]
  rw [bytesToBigInt, hstep]
  rfl

theorem readTopics_append (topics : List (ByteArr 32)) (rest : Bytes) :
    readTopics topics.length (Receipt.encodeTopics topics ++ rest) =
      .ok (topics.map List.Vector.toList, rest) := by
  induction topics with
  | nil => rfl
  | cons topic topics ih =>
      have hcons : Receipt.encodeTopics (topic :: topics) ++ rest =
          topic.toList ++ (Receipt.encodeTopics topics ++ rest) := by
        simp [Receipt.encodeTopics, arrayBytes]
      rw [hcons, List.length_cons, readTopics, bind_of_scan (readSlice_array topic _ _)]
      dsimp only
      rw [bind_of_scan ih]
      rfl

theorem record_logVerdict (logIndex : Nat) (log : LogEntry) (acc : List DecodedTransfer × Nat) :
    (logVerdict logIndex log.address.toList (log.topics.map List.Vector.toList) log.data).record acc =
      (acc.1 ++ (toldTransfer logIndex log).toList,
        acc.2 + if IsTransferLog log ∧ toldTransfer 0 log = none then 1 else 0) := by
  obtain ⟨address, topics, data⟩ := log
  cases topics with
  | nil => simp [logVerdict, isErc20TransferTopic, LogVerdict.record, toldTransfer, IsTransferLog]
  | cons topic0 topics =>
      by_cases htopic : topic0.toList = erc20TransferTopic0
      · rcases topics with _ | ⟨sender, _ | ⟨recipient, topics⟩⟩
        · simp [logVerdict, isErc20TransferTopic, LogVerdict.record, toldTransfer, IsTransferLog, htopic]
        · simp [logVerdict, isErc20TransferTopic, LogVerdict.record, toldTransfer, IsTransferLog, htopic]
        · rcases Nat.lt_or_ge data.length 32 with hdata | hdata
          · simp [logVerdict, isErc20TransferTopic, LogVerdict.record, toldTransfer, IsTransferLog,
              htopic, hdata]
          · simp [logVerdict, isErc20TransferTopic, LogVerdict.record, toldTransfer, IsTransferLog,
              htopic, hdata, not_lt.mpr hdata, bytesToBigInt_eq]
      · have hnone : toldTransfer logIndex ⟨address, topic0 :: topics, data⟩ = none := by
          rcases topics with _ | ⟨sender, _ | ⟨recipient, topics⟩⟩
          · rfl
          · rfl
          · simp [toldTransfer, htopic]
        rw [hnone]
        simp [logVerdict, isErc20TransferTopic, LogVerdict.record, IsTransferLog, htopic]

theorem encodeContractAddress_flag (address : Option (ByteArr 20)) :
    ∃ flag bytes, Receipt.encodeContractAddress address = flag :: bytes ∧ bytes.length = 20 ∧
      (if flag.toNat = 1 then some bytes else none) = address.map List.Vector.toList := by
  cases address with
  | none => exact ⟨0, _, rfl, (zeroArr Receipt.receiptContractAddrLen).toList_length, rfl⟩
  | some addr => exact ⟨1, addr.toList, rfl, addr.toList_length, rfl⟩

theorem readLogs_append (logs : List LogEntry) (hb : ∀ log ∈ logs, log.Bounded) (logIndex : Nat)
    (acc : List DecodedTransfer × Nat) (rest : Bytes) :
    readLogs logs.length logIndex acc (logs.flatMap Receipt.logBytes ++ rest) =
      .ok ((acc.1 ++ (logs.zipIdx logIndex).filterMap (fun e => toldTransfer e.2 e.1),
        acc.2 + logs.countP (fun log => decide (IsTransferLog log ∧ toldTransfer 0 log = none))), rest) := by
  induction logs generalizing logIndex acc with
  | nil => simp [readLogs]
  | cons log logs ih =>
      obtain ⟨hlog, hlogs⟩ := List.forall_mem_cons.mp hb
      have htopics : (UInt32.ofNat log.topics.length).toNat = log.topics.length :=
        UInt32.toNat_ofNat_of_lt (lt_of_le_of_lt hlog.topics (by decide))
      have hdata : (UInt32.ofNat log.data.length).toNat = log.data.length :=
        UInt32.toNat_ofNat_of_lt (lt_of_le_of_lt hlog.data (by decide))
      have hbytes : (log :: logs).flatMap Receipt.logBytes ++ rest =
          log.address.toList ++ (u32Bytes (UInt32.ofNat log.topics.length) ++
            (Receipt.encodeTopics log.topics ++ (u32Bytes (UInt32.ofNat log.data.length) ++
              (log.data ++ (logs.flatMap Receipt.logBytes ++ rest))))) := by
        simp [Receipt.logBytes, List.append_assoc]
      rw [hbytes, List.length_cons, readLogs, bind_of_scan (readSlice_array log.address _ _)]
      dsimp only
      rw [bind_of_scan (readU32Safe_append _ _ _)]
      dsimp only
      rw [htopics, bind_of_scan (readTopics_append log.topics _)]
      dsimp only
      rw [bind_of_scan (readU32Safe_append _ _ _)]
      dsimp only
      rw [hdata, bind_of_scan (readSlice_append rfl _ _)]
      dsimp only
      rw [record_logVerdict, ih hlogs, List.zipIdx_cons, List.countP_cons, List.filterMap_cons]
      dsimp only
      cases htold : toldTransfer logIndex log with
      | none =>
          simp
          ring
      | some info =>
          simp
          ring

theorem decodeReceipt_receiptBytes {r : ReceiptLike} (hb : r.Bounded) :
    decodeReceipt (Receipt.receiptBytes r) = .ok (receiptView r) := by
  have hdata : (UInt32.ofNat r.returnData.length).toNat = r.returnData.length :=
    UInt32.toNat_ofNat_of_lt (lt_of_le_of_lt hb.returnData (by decide))
  have hcount : (UInt32.ofNat r.logs.length).toNat = r.logs.length :=
    UInt32.toNat_ofNat_of_lt (lt_of_le_of_lt hb.logs (by decide))
  have hstatus : ¬ (r.status.toNat ≠ 0 ∧ r.status.toNat ≠ 1) := by
    have hle : r.status.toNat ≤ 1 := hb.status
    omega
  have hmagic : receiptV2Magic.isPrefixOf (Receipt.receiptBytes r) = true := by
    simp [receiptV2Magic, Receipt.receiptV2Magic, Receipt.receiptBytes, Receipt.encodeHead]
  have hskip : (u64Bytes r.gasUsed ++ u64Bytes r.effectiveGasPrice).length = 8 + 8 := by simp
  have hfees : (u128Bytes r.l1DataFee ++ (u128Bytes r.operatorFee ++ u128Bytes r.totalFee)).length =
      16 * 3 := by simp
  have hbytes : (Receipt.receiptBytes r).drop receiptV2Magic.length =
      r.txId.toList ++ (u64Bytes r.blockNumber ++ (u32Bytes r.txIndex ++ (r.status ::
        ((u64Bytes r.gasUsed ++ u64Bytes r.effectiveGasPrice) ++
          ((u128Bytes r.l1DataFee ++ (u128Bytes r.operatorFee ++ u128Bytes r.totalFee)) ++
            (r.returnDataHash.toList ++ (u32Bytes (UInt32.ofNat r.returnData.length) ++
              (r.returnData ++ (Receipt.encodeContractAddress r.contractAddress ++
                (u32Bytes (UInt32.ofNat r.logs.length) ++
                  r.logs.flatMap Receipt.logBytes)))))))))) := by
    simp [receiptV2Magic, Receipt.receiptV2Magic, Receipt.receiptBytes, Receipt.encodeHead,
      List.append_assoc]
  have hlogs := readLogs_append r.logs hb.each 0 ([], 0) []
  rw [List.append_nil] at hlogs
  obtain ⟨flag, bytes, haddress, hlen, hview⟩ := encodeContractAddress_flag r.contractAddress
  rw [decodeReceipt]
  simp only [hmagic, if_true, hbytes]
  rw [bind_of_scan (readSlice_array r.txId _ _)]
  dsimp only
  rw [bind_of_scan (readU64Safe_append _ _ _)]
  dsimp only
  rw [bind_of_scan (readU32Safe_append _ _ _)]
  dsimp only
  rw [bind_of_scan (rfl : readU8Safe _ (r.status :: _) = .ok (r.status.toNat, _))]
  dsimp only
  rw [if_neg hstatus, List.drop_left' hskip, List.drop_left' hfees,
    bind_of_scan (readSlice_array r.returnDataHash _ _)]
  dsimp only
  rw [bind_of_scan (readU32Safe_append _ _ _)]
  dsimp only
  rw [hdata, bind_of_scan (readSlice_append rfl _ _)]
  dsimp only
  rw [haddress, List.cons_append, bind_of_scan (rfl : readU8Safe _ (flag :: _) = .ok (flag.toNat, _))]
  dsimp only
  rw [bind_of_scan (readSlice_append hlen _ _)]
  dsimp only
  rw [bind_of_scan (readU32Safe_append _ _ _)]
  dsimp only
  rw [hcount, bind_of_scan hlogs, hview]
  dsimp only
  rw [List.nil_append, Nat.zero_add]
  rfl

def exportedReceipt {W : Type} (s : StableState W) (id : TxId) : Option ReceiptLike :=
  (Receipt.loadReceipt s.blobStore s.receipts id).map
    (fun r => if r.Fits then r else Receipt.corruptReceipt)

def receiptFrame (id : TxId) (r : ReceiptLike) : Bytes :=
  id.toList ++ (u32Bytes (UInt32.ofNat (Receipt.receiptBytes r).length) ++ Receipt.receiptBytes r)

theorem push_receiptsView (receipts : List (TxId × ReceiptLike)) (id : TxId) (r : ReceiptLike) :
    (receiptsView receipts).push id.toList (receiptView r) = receiptsView (receipts ++ [(id, r)]) := by
  simp [DecodedReceiptsInfo.push, receiptsView, receiptView]

theorem decodeReceiptsLoop_frames (receipts before : List (TxId × ReceiptLike))
    (hb : ∀ e ∈ receipts, e.2.Bounded ∧ (Receipt.receiptBytes e.2).length < 2 ^ 32) {fuel : Nat}
    (hfuel : (receipts.flatMap (fun e => receiptFrame e.1 e.2)).length ≤ fuel) :
    decodeReceiptsLoop fuel (receiptsView before) (receipts.flatMap (fun e => receiptFrame e.1 e.2)) =
      .ok (receiptsView (before ++ receipts)) := by
  induction receipts generalizing before fuel with
  | nil =>
      rw [List.append_nil]
      cases fuel with
      | zero => rfl
      | succ fuel => rfl
  | cons e receipts ih =>
      obtain ⟨hbounded, hrest⟩ := List.forall_mem_cons.mp hb
      have hlen : (UInt32.ofNat (Receipt.receiptBytes e.2).length).toNat =
          (Receipt.receiptBytes e.2).length := UInt32.toNat_ofNat_of_lt hbounded.2
      have hbytes : (e :: receipts).flatMap (fun e => receiptFrame e.1 e.2) = e.1.toList ++
          (u32Bytes (UInt32.ofNat (Receipt.receiptBytes e.2).length) ++ (Receipt.receiptBytes e.2 ++
            receipts.flatMap (fun e => receiptFrame e.1 e.2))) := by
        simp [receiptFrame, List.append_assoc]
      rw [hbytes] at hfuel ⊢
      have htotal : 36 + (receipts.flatMap (fun e => receiptFrame e.1 e.2)).length ≤ fuel := by
        simp only [List.length_append, List.Vector.toList_length, length_u32Bytes] at hfuel
        omega
      cases fuel with
      | zero => omega
      | succ fuel =>
          rw [decodeReceiptsLoop, if_neg (by simp), if_neg (by simp; omega),
            List.drop_left' e.1.toList_length, List.take_left' e.1.toList_length,
            bind_of_scan (readU32Safe_append _ _ _)]
          dsimp only
          rw [hlen, if_neg (by simp), List.take_left' rfl, List.drop_left' rfl,
            decodeReceipt_receiptBytes hbounded.1]
          have hnext := ih (before ++ [e]) hrest (show _ ≤ fuel by omega)
          rw [← push_receiptsView, List.append_assoc] at hnext
          exact hnext

theorem length_readArrays {n count : Nat} {data rest : Bytes} {arrays : List (ByteArr n)}
    (h : readArrays n count data = some (arrays, rest)) : arrays.length = count := by
  induction count generalizing data rest arrays with
  | zero =>
      obtain ⟨rfl, -⟩ := Prod.mk.inj (Option.some.inj h)
      rfl
  | succ count ih =>
      rw [readArrays] at h
      obtain ⟨⟨head, data'⟩, -, h⟩ := Option.bind_eq_some_iff.mp h
      obtain ⟨⟨tail, data''⟩, htail, h⟩ := Option.bind_eq_some_iff.mp h
      obtain ⟨rfl, -⟩ := Prod.mk.inj (Option.some.inj h)
      rw [List.length_cons, ih htail]

theorem bounded_readLog {data rest : Bytes} {log : LogEntry}
    (h : Receipt.readLog data = some (log, rest)) : log.Bounded := by
  rw [Receipt.readLog] at h
  obtain ⟨⟨address, d₁⟩, -, h⟩ := Option.bind_eq_some_iff.mp h
  obtain ⟨⟨topicsLen, d₂⟩, -, h⟩ := Option.bind_eq_some_iff.mp h
  dsimp only at h
  split_ifs at h with htopics
  obtain ⟨⟨topics, d₃⟩, hread, h⟩ := Option.bind_eq_some_iff.mp h
  obtain ⟨⟨dataLen, d₄⟩, -, h⟩ := Option.bind_eq_some_iff.mp h
  dsimp only at h
  split_ifs at h with hdata
  obtain ⟨⟨payload, d₅⟩, hvec, h⟩ := Option.bind_eq_some_iff.mp h
  obtain ⟨⟨topics', payload'⟩, hnew, h⟩ := Option.bind_eq_some_iff.mp h
  rw [Receipt.logDataNew] at hnew
  split_ifs at hnew
  obtain ⟨rfl, rfl⟩ := Prod.mk.inj (Option.some.inj hnew)
  obtain ⟨rfl, -⟩ := Prod.mk.inj (Option.some.inj h)
  refine ⟨?_, ?_⟩
  · have hlen := length_readArrays hread
    simp only [boundedLen, decide_eq_false_iff_not, not_not] at htopics
    exact hlen ▸ htopics
  · have hlen := (readExact_eq_some hvec).1
    simp only [boundedLen, decide_eq_false_iff_not, not_not] at hdata
    exact hlen ▸ hdata

theorem bounded_readLogs {n : Nat} {data rest : Bytes} {logs : List LogEntry}
    (h : Receipt.readLogs n data = some (logs, rest)) :
    logs.length = n ∧ ∀ log ∈ logs, log.Bounded := by
  induction n generalizing data rest logs with
  | zero =>
      obtain ⟨rfl, -⟩ := Prod.mk.inj (Option.some.inj h)
      exact ⟨rfl, fun _ hlog => absurd hlog List.not_mem_nil⟩
  | succ n ih =>
      rw [Receipt.readLogs] at h
      obtain ⟨⟨log, data'⟩, hlog, h⟩ := Option.bind_eq_some_iff.mp h
      obtain ⟨⟨tail, data''⟩, htail, h⟩ := Option.bind_eq_some_iff.mp h
      obtain ⟨rfl, -⟩ := Prod.mk.inj (Option.some.inj h)
      obtain ⟨hlen, hall⟩ := ih htail
      exact ⟨congrArg (· + 1) hlen, List.forall_mem_cons.mpr ⟨bounded_readLog hlog, hall⟩⟩

theorem bounded_decodeReceipt {bytes : Bytes} {r : ReceiptLike}
    (h : Receipt.decodeReceipt bytes = some r) : r.Bounded := by
  unfold Receipt.decodeReceipt at h
  dsimp only at h
  obtain ⟨⟨txId, d₁⟩, -, h⟩ := Option.bind_eq_some_iff.mp h
  obtain ⟨⟨blockNumber, d₂⟩, -, h⟩ := Option.bind_eq_some_iff.mp h
  obtain ⟨⟨txIndex, d₃⟩, -, h⟩ := Option.bind_eq_some_iff.mp h
  obtain ⟨⟨status, d₄⟩, -, h⟩ := Option.bind_eq_some_iff.mp h
  dsimp only at h
  split_ifs at h with hstatus
  obtain ⟨⟨gasUsed, d₅⟩, -, h⟩ := Option.bind_eq_some_iff.mp h
  obtain ⟨⟨effectiveGasPrice, d₆⟩, -, h⟩ := Option.bind_eq_some_iff.mp h
  obtain ⟨⟨⟨l1DataFee, operatorFee, totalFee⟩, d₇⟩, -, h⟩ := Option.bind_eq_some_iff.mp h
  obtain ⟨⟨returnDataHash, d₈⟩, -, h⟩ := Option.bind_eq_some_iff.mp h
  obtain ⟨⟨returnDataLen, d₉⟩, -, h⟩ := Option.bind_eq_some_iff.mp h
  dsimp only at h
  split_ifs at h with hreturn
  obtain ⟨⟨returnData, d₁₀⟩, hvec, h⟩ := Option.bind_eq_some_iff.mp h
  obtain ⟨⟨contractAddress, d₁₁⟩, -, h⟩ := Option.bind_eq_some_iff.mp h
  obtain ⟨⟨logsLen, d₁₂⟩, -, h⟩ := Option.bind_eq_some_iff.mp h
  dsimp only at h
  split_ifs at h with hcount
  obtain ⟨⟨logs, d₁₃⟩, hlogs, h⟩ := Option.bind_eq_some_iff.mp h
  obtain rfl := Option.some.inj h
  obtain ⟨hlen, hall⟩ := bounded_readLogs hlogs
  simp only [boundedLen, Receipt.validReceiptStatus, decide_eq_false_iff_not, not_not] at *
  exact ⟨hstatus, (readExact_eq_some hvec).1 ▸ hreturn, hlen ▸ hcount, hall⟩

theorem bounded_fromBytes (bytes : Bytes) : (Receipt.fromBytes bytes).Bounded := by
  rw [Receipt.fromBytes]
  split_ifs
  · exact Receipt.corruptReceipt_bounded
  · cases h : Receipt.decodeReceipt bytes with
    | none => exact Receipt.corruptReceipt_bounded
    | some r => exact bounded_decodeReceipt h

theorem u32TryFrom_ok {e : ExportError} {n : Nat} {len : UInt32}
    (h : orError e (u32TryFrom n) = .ok len) : n < 2 ^ 32 ∧ len = UInt32.ofNat n := by
  rw [u32TryFrom] at h
  split_ifs at h with hlt
  · exact ⟨hlt, (Except.ok.inj h).symm⟩
  · cases h

section

variable {W : Type} {s : StableState W}

theorem read_of_readBlob {reason : String} {ptr : Blob.BlobPtr} {bytes : Bytes}
    (h : readBlob s reason ptr = .ok bytes) : s.blobStore.read ptr = .ok bytes := by
  rw [readBlob] at h
  split at h
  · rename_i data hdata
    rw [hdata, Except.ok.inj h]
  · exact absurd h (by simp)

theorem receiptEntry_frame {id : TxId} {entry : Bytes} (h : receiptEntry s id = .ok entry) :
    ∃ r, exportedReceipt s id = some r ∧ (r.Bounded ∧ (Receipt.receiptBytes r).length < 2 ^ 32) ∧
      entry = receiptFrame id r := by
  obtain ⟨ptr, hptr, h⟩ := bind_eq_ok.mp h
  obtain ⟨bytes, hbytes, h⟩ := bind_eq_ok.mp h
  dsimp only at h
  split_ifs at h with hcorrupt
  obtain ⟨len, hlen, h⟩ := bind_eq_ok.mp h
  obtain ⟨hid, hzero⟩ := not_or.mp hcorrupt
  have hget : s.receipts.get id = some ptr := by
    cases hreceipt : s.receipts.get id with
    | none =>
        rw [hreceipt] at hptr
        exact absurd hptr (by simp [orMissing, orError])
    | some q =>
        rw [hreceipt] at hptr
        exact congrArg some (Except.ok.inj hptr)
  have hread : s.blobStore.read ptr = .ok bytes := read_of_readBlob hbytes
  have hload : Receipt.loadReceipt s.blobStore s.receipts id = some (Receipt.fromBytes bytes) := by
    simp [Receipt.loadReceipt, hget, hread, Receipt.isCorruptReceipt, not_not.mp hid ▸ hzero,
      not_not.mp hid]
  have hbounded := bounded_fromBytes bytes
  generalize Receipt.fromBytes bytes = r at h hlen hload hbounded
  have hencoded : Receipt.toBytes r =
      Receipt.receiptBytes (if r.Fits then r else Receipt.corruptReceipt) := by
    rw [Receipt.toBytes_of_bounded r hbounded]
    split_ifs
    · rfl
    · rfl
  have hexported : (if r.Fits then r else Receipt.corruptReceipt).Bounded := by
    split_ifs
    · exact hbounded
    · exact Receipt.corruptReceipt_bounded
  obtain ⟨hlt, rfl⟩ := u32TryFrom_ok hlen
  rw [hencoded] at hlt h
  refine ⟨_, congrArg (Option.map _) hload, ⟨hexported, hlt⟩, ?_⟩
  exact (Except.ok.inj h).symm

theorem buildReceiptsPayload_frames {ids : List TxId} {payload : Bytes}
    (h : buildReceiptsPayload s ids = .ok payload) :
    ∃ receipts, ids.mapM (exportedReceipt s) = some receipts ∧
      (∀ e ∈ ids.zip receipts, e.2.Bounded ∧ (Receipt.receiptBytes e.2).length < 2 ^ 32) ∧
      payload = (ids.zip receipts).flatMap (fun e => receiptFrame e.1 e.2) := by
  induction ids generalizing payload with
  | nil => exact ⟨[], rfl, fun _ he => absurd he List.not_mem_nil, (Except.ok.inj h).symm⟩
  | cons id ids ih =>
      obtain ⟨entry, hentry, h⟩ := bind_eq_ok.mp h
      obtain ⟨tail, htail, h⟩ := bind_eq_ok.mp h
      obtain ⟨r, hr, hb, rfl⟩ := receiptEntry_frame hentry
      obtain ⟨receipts, hreceipts, hall, rfl⟩ := ih htail
      refine ⟨r :: receipts, ?_, List.forall_mem_cons.mpr ⟨hb, hall⟩, (Except.ok.inj h).symm⟩
      simp [List.mapM_cons, hr, hreceipts]

-- what the indexer reads from the receipts segment is what the chain holds
theorem receipts_decoded {ids : List TxId} {payload : Bytes}
    (h : buildReceiptsPayload s ids = .ok payload) :
    ∃ receipts, ids.mapM (exportedReceipt s) = some receipts ∧
      decodeReceiptsPayload payload = .ok (receiptsView (ids.zip receipts)) := by
  obtain ⟨receipts, hreceipts, hall, rfl⟩ := buildReceiptsPayload_frames h
  exact ⟨receipts, hreceipts, decodeReceiptsLoop_frames (ids.zip receipts) [] hall (Nat.le_refl _)⟩

end

def transferTopic : ByteArr 32 := ((readArray 32 erc20TransferTopic0).map Prod.fst).getD (zeroArr 32)

def tokenReceipt : ReceiptLike := { Receipt.smallReceipt with
  logs := [⟨zeroArr 20, [transferTopic, zeroArr 32, zeroArr 32], List.replicate 32 1⟩] }

def tokenState : StableState Unit := { StableState.init () with
  blobStore := (Receipt.storeReceipt (fun _ => true) .empty tokenReceipt).2
  receipts := OrdMap.empty.insert Receipt.sampleTxId ⟨0, 336, 8192, 1⟩ }

theorem receipts_decoded_sample :
    ∃ receipts, [Receipt.sampleTxId].mapM (exportedReceipt tokenState) = some receipts ∧
      decodeReceiptsPayload (receiptFrame Receipt.sampleTxId tokenReceipt) =
        .ok (receiptsView ([Receipt.sampleTxId].zip receipts)) :=
  receipts_decoded (by decide +kernel)

example : (receiptsView [(Receipt.sampleTxId, tokenReceipt)]).tokenTransfers.length = 1 := by
  decide +kernel

end Kasane.Indexer
