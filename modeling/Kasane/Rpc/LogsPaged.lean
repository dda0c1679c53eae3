import Kasane.Gateway.State
import Kasane.Lib.Paging

namespace Kasane.Rpc

open BigEndian Codec Word Chain
open Receipt (ReceiptLike LogEntry)
open Gateway (getReceipt)

variable {W : Type} (c : Crypto)

structure EthLogFilterView where
  fromBlock : Option Nat
  toBlock : Option Nat
  address : Option Bytes
  topic0 : Option Bytes
  topic1 : Option Bytes
  limit : Option Nat
deriving DecidableEq

structure EthLogItemView where
  blockNumber : Nat
  blockHash : Option Bytes
  txIndex : Nat
  logIndex : Nat
  txHash : Bytes
  ethTxHash : Option Bytes
  address : Bytes
  topics : List Bytes
  data : Bytes
deriving DecidableEq

structure EthLogsCursorView where
  blockNumber : Nat
  txIndex : Nat
  logIndex : Nat
deriving DecidableEq, Repr

structure EthLogsPageView where
  items : List EthLogItemView
  nextCursor : Option EthLogsCursorView
deriving DecidableEq

inductive GetLogsErrorView where
  | rangeTooLarge
  | tooManyResults
  | unsupportedFilter (reason : String)
  | invalidArgument (reason : String)
deriving DecidableEq, Repr

def defaultLimit : Nat := 200

def maxLimit : Nat := 2000

def maxBlockSpan : Nat := 1000

def maxScannedReceipts : Nat := 20000

def u32OrMax (n : Nat) : Nat := if n ≤ u32Max then n else u32Max

def addressLenError (label : String) (len : Nat) : String :=
  if len = 32 then
    label ++ " must be 20 bytes (got 32; this looks like bytes32-encoded principal)"
  else label ++ " must be 20 bytes"

def parseBytes (n : Nat) (bytes : Bytes) : Option (ByteArr n) :=
  if h : bytes.length = n then some ⟨bytes, h⟩ else none

def parseAddress20WithLabel (bytes : Bytes) (label : String) : Except String (ByteArr 20) :=
  match parseBytes 20 bytes with
  | some address => .ok address
  | none => .error (addressLenError label bytes.length)

def parseHash32 (bytes : Bytes) : Option (ByteArr 32) := parseBytes 32 bytes

structure LogQuery where
  address : Option (ByteArr 20)
  topic0 : Option (ByteArr 32)

def LogQuery.admits (q : LogQuery) (log : LogEntry) : Bool :=
  q.address.all (fun address => decide (log.address = address)) &&
    q.topic0.all (fun topic0 => decide (log.topics.head? = some topic0))

def ethTxHash (s : StableState W) (id : TxId) : Option Bytes :=
  match storedTx c s id with
  | some (.ok stored) =>
      if stored.kind = .ethSigned then some (c.keccak256 stored.raw).toList else none
  | _ => none

def logItem (s : StableState W) (block : BlockData) (receipt : ReceiptLike) (id : TxId)
    (logIndex : Nat) (log : LogEntry) : EthLogItemView where
  blockNumber := receipt.blockNumber.toNat
  blockHash := some block.blockHash.toList
  txIndex := receipt.txIndex.toNat
  logIndex := logIndex
  txHash := receipt.txId.toList
  ethTxHash := ethTxHash c s id
  address := log.address.toList
  topics := log.topics.map (fun topic => topic.toList)
  data := log.data

def scanLogs (q : LogQuery) (limit : Nat) (item : LogEntry → Nat → EthLogItemView)
    (stop : Nat → EthLogsCursorView) :
    List (LogEntry × Nat) → List EthLogItemView → Except EthLogsPageView (List EthLogItemView)
  | [], out => .ok out
  | (log, index) :: rest, out =>
      if q.admits log = false then scanLogs q limit item stop rest out
      else
        let out := out ++ [item log index]
        if out.length = limit then .error ⟨out, some (stop (index + 1))⟩
        else scanLogs q limit item stop rest out

def addLogs (offset : Nat) (receipt : ReceiptLike) : Nat :=
  saturatingAdd u32Max offset (u32OrMax receipt.logs.length)

def blockLogOffset (s : StableState W) (ids : List TxId) : Nat :=
  ids.foldl (fun offset id =>
    match getReceipt s id with
    | some receipt => addLogs offset receipt
    | none => offset) 0

structure LogScan where
  out : List EthLogItemView
  scanned : Nat
  offset : Nat

def scanTxs (s : StableState W) (q : LogQuery) (limit number : Nat) (block : BlockData)
    (logStart : Nat → Nat) : List (TxId × Nat) → LogScan → Except EthLogsPageView LogScan
  | [], x => .ok x
  | (id, txPos) :: rest, x =>
      if x.scanned ≥ maxScannedReceipts then
        .error ⟨x.out, some ⟨number, u32OrMax txPos, 0⟩⟩
      else
        match getReceipt s id with
        | none => scanTxs s q limit number block logStart rest x
        | some receipt =>
            match scanLogs q limit
              (fun log index =>
                logItem c s block receipt id (saturatingAdd u32Max x.offset (u32OrMax index)) log)
              (fun index => ⟨number, u32OrMax txPos, u32OrMax index⟩)
              (receipt.logs.zipIdx.drop (logStart txPos)) x.out with
            | .error page => .error page
            | .ok out =>
                scanTxs s q limit number block logStart rest
                  ⟨out, x.scanned + 1, addLogs x.offset receipt⟩

def scanBlocks (s : StableState W) (q : LogQuery) (limit : Nat) (start : EthLogsCursorView) :
    List Nat → List EthLogItemView × Nat → Except EthLogsPageView (List EthLogItemView)
  | [], x => .ok x.1
  | number :: rest, x =>
      match loadBlock s number with
      | none => scanBlocks s q limit start rest x
      | some block =>
          let txStart := if number = start.blockNumber then start.txIndex else 0
          let logStart := fun txPos =>
            if number = start.blockNumber ∧ txPos = txStart then start.logIndex else 0
          match scanTxs c s q limit number block logStart (block.txIds.zipIdx.drop txStart)
            ⟨x.1, x.2, blockLogOffset s (block.txIds.take txStart)⟩ with
          | .error page => .error page
          | .ok y => scanBlocks s q limit start rest (y.out, y.scanned)

def addressFilter (filter : EthLogFilterView) : Except GetLogsErrorView (Option (ByteArr 20)) :=
  match filter.address with
  | some bytes =>
      match parseAddress20WithLabel bytes "address" with
      | .ok address => .ok (some address)
      | .error reason => .error (.invalidArgument reason)
  | none => .ok none

def topic0Filter (filter : EthLogFilterView) : Except GetLogsErrorView (Option (ByteArr 32)) :=
  match filter.topic0 with
  | some bytes =>
      match parseHash32 bytes with
      | some topic0 => .ok (some topic0)
      | none => .error (.invalidArgument "topic0 must be 32 bytes")
  | none => .ok none

def parseLogQuery (filter : EthLogFilterView) : Except GetLogsErrorView LogQuery := do
  let address ← addressFilter filter
  let topic0 ← topic0Filter filter
  pure ⟨address, topic0⟩

def requestedLimit (filter : EthLogFilterView) (limit : Nat) : Nat :=
  max (if limit = 0 then filter.limit.getD defaultLimit else limit) 1

-- the first block of the range that is not pruned
def visibleFrom (s : StableState W) (from_ : Nat) : Nat :=
  match s.pruneState.prunedBefore with
  | some pruned => if from_ ≤ pruned then saturatingAdd u64Max pruned 1 else from_
  | none => from_

def scanPage (s : StableState W) (q : LogQuery) (limit last : Nat) (start : EthLogsCursorView) :
    EthLogsPageView :=
  match scanBlocks c s q limit start (List.range' start.blockNumber (last + 1 - start.blockNumber))
    ([], 0) with
  | .error page => page
  | .ok out => ⟨out, none⟩

def lastBlock (s : StableState W) (filter : EthLogFilterView) : Nat :=
  min (filter.toBlock.getD s.head.number) s.head.number

def rpcEthGetLogsPaged (s : StableState W) (filter : EthLogFilterView)
    (cursor : Option EthLogsCursorView) (limit : Nat) : Except GetLogsErrorView EthLogsPageView :=
  if filter.topic1.isSome then .error (.unsupportedFilter "topic1 is not supported")
  else if filter.fromBlock.getD 0 > filter.toBlock.getD s.head.number then
    .error (.invalidArgument "from_block must be <= to_block")
  else if filter.toBlock.getD s.head.number - filter.fromBlock.getD 0 > maxBlockSpan then
    .error .rangeTooLarge
  else if requestedLimit filter limit > maxLimit then .error .tooManyResults
  else
    match parseLogQuery filter with
    | .error e => .error e
    | .ok q =>
        let first := visibleFrom s (filter.fromBlock.getD 0)
        let last := lastBlock s filter
        match cursor with
        | some cur =>
            if cur.blockNumber < first ∨ cur.blockNumber > last then
              .error (.invalidArgument "cursor out of range")
            else .ok (scanPage c s q (requestedLimit filter limit) last cur)
        | none => .ok (scanPage c s q (requestedLimit filter limit) last ⟨first, 0, 0⟩)

structure EthReceiptLogView where
  address : Bytes
  topics : List Bytes
  data : Bytes
  logIndex : Nat
deriving DecidableEq

def baseLogIndexLoop (s : StableState W) (receipt : ReceiptLike) : List TxId → Nat → Nat
  | [], _ => 0
  | id :: rest, offset =>
      if id = receipt.txId then u32OrMax offset
      else
        baseLogIndexLoop s receipt rest (match getReceipt s id with
          | some previous => saturatingAdd u64Max offset previous.logs.length
          | none => offset)

def baseLogIndexForReceipt (s : StableState W) (receipt : ReceiptLike) : Nat :=
  match loadBlock s receipt.blockNumber.toNat with
  | none => 0
  | some block => baseLogIndexLoop s receipt block.txIds 0

-- the logs of receipt_to_eth_view
def receiptLogViews (s : StableState W) (receipt : ReceiptLike) : List EthReceiptLogView :=
  receipt.logs.zipIdx.map (fun e =>
    { address := e.1.address.toList
      topics := e.1.topics.map (fun topic => topic.toList)
      data := e.1.data
      logIndex := saturatingAdd u32Max (baseLogIndexForReceipt s receipt) (u32OrMax e.2) })

end Kasane.Rpc
