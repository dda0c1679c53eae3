import Kasane.Receipt.RoundTrip
import Kasane.Blob.ReadBack

namespace Kasane.Receipt

open BigEndian Codec Blob Word

inductive ExecutionResult where
  | success (gasUsed : UInt64) (output : Bytes)
      (address : Option (ByteArr receiptContractAddrLen)) (logs : List LogEntry)
  | revert (gasUsed : UInt64) (output : Bytes)
  | halt (gasUsed : UInt64)

inductive ExecError where
  | resultTooLarge
deriving DecidableEq, Repr

namespace ExecutionResult

def status : ExecutionResult → UInt8
  | .success _ _ _ _ => 1
  | .revert _ _ => 0
  | .halt _ => 0

def gasUsed : ExecutionResult → UInt64
  | .success gas _ _ _ => gas
  | .revert gas _ => gas
  | .halt gas => gas

def output : ExecutionResult → Bytes
  | .success _ output _ _ => output
  | .revert _ output => output
  | .halt _ => []

def contractAddress : ExecutionResult → Option (ByteArr receiptContractAddrLen)
  | .success _ _ address _ => address
  | .revert _ _ => none
  | .halt _ => none

def logs : ExecutionResult → List LogEntry
  | .success _ _ _ logs => logs
  | .revert _ _ => []
  | .halt _ => []

theorem status_le_one (result : ExecutionResult) : result.status ≤ 1 := by
  cases result with
  | success _ _ _ _ => exact UInt8.le_refl 1
  | revert _ _ => exact UInt8.zero_le
  | halt _ => exact UInt8.zero_le

end ExecutionResult

def validateExecutionResultSizes (output : Bytes) (logs : List LogEntry) : Except ExecError Unit :=
  if output.length > maxReturnData then .error .resultTooLarge
  else if logs.length > maxLogsPerTx then .error .resultTooLarge
  else if logs.any (fun log => decide (log.topics.length > maxLogTopics) ||
      decide (log.data.length > maxLogData)) then .error .resultTooLarge
  else .ok ()

structure TxContext where
  txId : TxId
  blockNumber : UInt64
  txIndex : UInt32
  effectiveGasPrice : UInt64

def l2Fee (gasUsed effectiveGasPrice : UInt64) : Nat := gasUsed.toNat * effectiveGasPrice.toNat

def totalFee (gasUsed effectiveGasPrice : UInt64) (l1DataFee operatorFee : Nat) : Nat :=
  saturatingAdd u128Max (saturatingAdd u128Max (l2Fee gasUsed effectiveGasPrice) l1DataFee) operatorFee

def buildReceipt (keccak256 : Bytes → ByteArr 32) (ctx : TxContext) (result : ExecutionResult) :
    ReceiptLike where
  txId := ctx.txId
  blockNumber := ctx.blockNumber
  txIndex := ctx.txIndex
  status := result.status
  gasUsed := result.gasUsed
  effectiveGasPrice := ctx.effectiveGasPrice
  l1DataFee := 0
  operatorFee := 0
  totalFee := BitVec.ofNat 128 (totalFee result.gasUsed ctx.effectiveGasPrice 0 0)
  returnDataHash := keccak256 result.output
  returnData := result.output
  contractAddress := result.contractAddress
  logs := result.logs

def executionReceipt (keccak256 : Bytes → ByteArr 32) (ctx : TxContext)
    (result : ExecutionResult) : Except ExecError ReceiptLike :=
  match validateExecutionResultSizes result.output result.logs with
  | .error e => .error e
  | .ok () => .ok (buildReceipt keccak256 ctx result)

def storeReceipt (grow : Nat → Bool) (blobs : BlobStore) (r : ReceiptLike) :
    Except BlobError BlobPtr × BlobStore :=
  blobs.storeBytes grow (toBytes r)

def isCorruptReceipt (r : ReceiptLike) (txId : TxId) : Bool :=
  decide (r.txId ≠ txId) || decide (r.txId = zeroArr 32)

def loadReceipt (blobs : BlobStore) (receipts : OrdMap TxId BlobPtr) (txId : TxId) :
    Option ReceiptLike :=
  match receipts.get txId with
  | none => none
  | some ptr =>
      match blobs.read ptr with
      | .error _ => none
      | .ok bytes =>
          let r := fromBytes bytes
          if isCorruptReceipt r txId then none else some r

theorem validateExecutionResultSizes_ok {output : Bytes} {logs : List LogEntry}
    (h : validateExecutionResultSizes output logs = .ok ()) :
    output.length ≤ maxReturnData ∧ logs.length ≤ maxLogsPerTx ∧ ∀ log ∈ logs, log.Bounded := by
  simp only [validateExecutionResultSizes] at h
  split_ifs at h with h1 h2 h3
  refine ⟨not_lt.mp h1, not_lt.mp h2, ?_⟩
  intro log hlog
  have hnone : ∀ l ∈ logs, ¬ (l.topics.length > maxLogTopics ∨ l.data.length > maxLogData) := by
    simpa using h3
  obtain ⟨ht, hd⟩ := not_or.mp (hnone log hlog)
  exact ⟨not_lt.mp ht, not_lt.mp hd⟩

theorem executionReceipt_ok {keccak256 : Bytes → ByteArr 32} {ctx : TxContext}
    {result : ExecutionResult} {r : ReceiptLike}
    (h : executionReceipt keccak256 ctx result = .ok r) : r.Bounded ∧ r.txId = ctx.txId := by
  rw [executionReceipt] at h
  split at h
  · exact absurd h (by simp)
  · rename_i hvalid
    obtain ⟨hout, hlen, hall⟩ := validateExecutionResultSizes_ok hvalid
    obtain rfl := Except.ok.inj h
    exact ⟨⟨result.status_le_one, hout, hlen, hall⟩, rfl⟩

theorem loadReceipt_eq {blobs : BlobStore} {receipts : OrdMap TxId BlobPtr} {txId : TxId}
    {ptr : BlobPtr} {r : ReceiptLike} (hptr : receipts.get txId = some ptr)
    (hread : blobs.read ptr = .ok (toBytes r)) (hb : r.Bounded) (hid : r.txId = txId) :
    loadReceipt blobs receipts txId = some r ↔ r.Fits ∧ txId ≠ zeroArr 32 := by
  simp only [loadReceipt, hptr, hread, fromBytes_toBytes r hb]
  by_cases hfits : r.Fits
  · simp [hfits, isCorruptReceipt, hid]
  · have hlost : isCorruptReceipt corruptReceipt txId = true := by
      simp [isCorruptReceipt, corruptReceipt]
    simp [hfits, hlost]

theorem receipt_read_back_iff (r : ReceiptLike) :
    (∀ bytes, encodeChecked r = .ok bytes → (fromBytes (toBytes r) = r ↔ r.Fits)) ∧
    ∀ (keccak256 : Bytes → ByteArr 32) (ctx : TxContext) (result : ExecutionResult),
      executionReceipt keccak256 ctx result = .ok r →
      ∀ (past : List BlobOp) (grow : Nat → Bool) (ptr : BlobPtr) (blobs : BlobStore),
        storeReceipt grow (past.foldl BlobOp.run .empty) r = (.ok ptr, blobs) →
        ∀ (later : List BlobOp), (∀ op ∈ later, op.Spares ptr) →
          ∀ receipts : OrdMap TxId BlobPtr, receipts.get ctx.txId = some ptr →
            (loadReceipt (later.foldl BlobOp.run blobs) receipts ctx.txId = some r ↔
              r.Fits ∧ ctx.txId ≠ zeroArr 32) := by
  constructor
  · intro bytes h
    obtain ⟨hb, -⟩ := (encodeChecked_ok_iff r bytes).mp h
    exact fromBytes_toBytes_eq_iff r hb
  · intro keccak256 ctx result hr past grow ptr blobs hstore later hspares receipts hptr
    obtain ⟨hb, hid⟩ := executionReceipt_ok hr
    have hs : (past.foldl BlobOp.run .empty).Sound :=
      BlobOp.sound_foldl BlobStore.sound_empty past
    have hread := BlobStore.read_after_store hs hstore later hspares
    exact loadReceipt_eq hptr hread hb hid

def sampleTxId : TxId := List.Vector.replicate 32 1

def sampleContext : TxContext where
  txId := sampleTxId
  blockNumber := 1
  txIndex := 0
  effectiveGasPrice := 1

def smallResult : ExecutionResult := .success 21000 [1, 2] none []

def smallReceipt : ReceiptLike := buildReceipt (fun _ => zeroArr 32) sampleContext smallResult

def smallStored : Except BlobError BlobPtr × BlobStore :=
  storeReceipt (fun _ => true) .empty smallReceipt

theorem small_receipt_read_back :
    fromBytes (toBytes smallReceipt) = smallReceipt ∧
      loadReceipt smallStored.2 (OrdMap.empty.insert sampleTxId ⟨0, 180, 8192, 1⟩) sampleTxId =
        some smallReceipt := by
  have hfits : smallReceipt.Fits := by decide
  have hok : executionReceipt (fun _ => zeroArr 32) sampleContext smallResult =
      .ok smallReceipt := by decide
  have hstored : smallStored.1 = .ok ⟨0, 180, 8192, 1⟩ := by decide +kernel
  have hpair : smallStored = (.ok ⟨0, 180, 8192, 1⟩, smallStored.2) := by
    rw [← hstored]
  have hget : (OrdMap.empty.insert sampleTxId (⟨0, 180, 8192, 1⟩ : BlobPtr)).get sampleTxId =
      some ⟨0, 180, 8192, 1⟩ := by simp
  refine ⟨((receipt_read_back_iff smallReceipt).1 (receiptBytes smallReceipt) ?_).mpr hfits, ?_⟩
  · decide +kernel
  · exact ((receipt_read_back_iff smallReceipt).2 _ sampleContext smallResult hok []
      (fun _ => true) _ _ hpair [] (by simp) _ hget).mpr ⟨hfits, by decide⟩

def fullLog : LogEntry where
  address := zeroArr 20
  topics := List.replicate maxLogTopics (zeroArr 32)
  data := List.replicate maxLogData 0

def fullResult : ExecutionResult :=
  .success 21000 (List.replicate maxReturnData 0) none (List.replicate maxLogsPerTx fullLog)

theorem fullLog_bounded : fullLog.Bounded where
  topics := le_of_eq List.length_replicate
  data := le_of_eq List.length_replicate

theorem validateExecutionResultSizes_of_bounded {output : Bytes} {logs : List LogEntry}
    (hout : output.length ≤ maxReturnData) (hlen : logs.length ≤ maxLogsPerTx)
    (hall : ∀ log ∈ logs, log.Bounded) : validateExecutionResultSizes output logs = .ok () := by
  have hnone : logs.any (fun log => decide (log.topics.length > maxLogTopics) ||
      decide (log.data.length > maxLogData)) = false := by
    rw [List.any_eq_false]
    intro log hlog
    simp [(hall log hlog).topics, (hall log hlog).data]
  rw [validateExecutionResultSizes, if_neg (not_lt.mpr hout), if_neg (not_lt.mpr hlen), hnone]
  rfl

theorem executionReceipt_of_valid (keccak256 : Bytes → ByteArr 32) (ctx : TxContext)
    {result : ExecutionResult}
    (h : validateExecutionResultSizes result.output result.logs = .ok ()) :
    executionReceipt keccak256 ctx result = .ok (buildReceipt keccak256 ctx result) := by
  rw [executionReceipt, h]

theorem fullResult_valid :
    validateExecutionResultSizes fullResult.output fullResult.logs = .ok () := by
  refine validateExecutionResultSizes_of_bounded ?_ ?_ ?_
  · exact le_of_eq List.length_replicate
  · exact le_of_eq List.length_replicate
  · intro log hlog
    rw [List.eq_of_mem_replicate hlog]
    exact fullLog_bounded

theorem logsSize_fullResult :
    logsSize fullResult.logs = maxLogsPerTx * (28 + 32 * maxLogTopics + maxLogData) := by
  have hlog : logSize fullLog = 28 + 32 * maxLogTopics + maxLogData := by
    rw [logSize, fullLog, List.length_replicate, List.length_replicate]
  rw [fullResult, ExecutionResult.logs, logsSize, List.map_replicate, List.sum_replicate, hlog]
  rfl

theorem full_receipt_lost :
    ∃ r bytes, executionReceipt (fun _ => zeroArr 32) sampleContext fullResult = .ok r ∧
      encodeChecked r = .ok bytes ∧ fromBytes (toBytes r) ≠ r := by
  have hok := executionReceipt_of_valid (fun _ => zeroArr 32) sampleContext fullResult_valid
  obtain ⟨hb, -⟩ := executionReceipt_ok hok
  refine ⟨_, _, hok, (encodeChecked_ok_iff _ _).mpr ⟨hb, rfl⟩, ?_⟩
  rw [Ne, fromBytes_toBytes_eq_iff _ hb, ReceiptLike.Fits]
  have hdata : (buildReceipt (fun _ => zeroArr 32) sampleContext fullResult).returnData.length =
      maxReturnData := List.length_replicate
  have hlogs : (buildReceipt (fun _ => zeroArr 32) sampleContext fullResult).logs =
      fullResult.logs := rfl
  rw [hdata, hlogs, logsSize_fullResult]
  have hsize : maxLogsPerTx * (28 + 32 * maxLogTopics + maxLogData) = maxLogsSize := rfl
  omega

end Kasane.Receipt
