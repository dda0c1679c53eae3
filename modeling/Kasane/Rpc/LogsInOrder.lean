import Kasane.Chain.BlockReceipts
import Kasane.Exec.Receipts
import Kasane.Node.PruneFrame
import Kasane.Rpc.FeeHistory
import Kasane.Rpc.LogsWalk

namespace Kasane.Rpc

open BigEndian Codec Word Chain Node
open Receipt (ReceiptLike LogEntry)
open Gateway (getReceipt)
open Exec (Revm TrieCommit World evm sampleTrie sampleLog sampleAddress creditDiff queueOf
  run_queueOf emptyWorld)

section Runs

variable {T : Type} {c : Crypto} {revm : Revm} {trie : TrieCommit T}

theorem receipted_produceBlock {env : CallEnv} {maxTxs : Nat} {s t : StableState (World T)}
    {r : Except ChainError ProduceBlockOutcome} {p : Pool} (h : Receipted s)
    (hp : Consistent c False s p)
    (hrun : produceBlock c (Exec.evm c revm trie) env maxTxs s = some (r, t)) : Receipted t := by
  have ht := stocked_produceBlock h.stocked hrun
  cases produceBlock_cases hrun with
  | refused e m => exact h.of_view rfl
  | dropped e m drops selected =>
      have hs : Receipted { s with decodeSuppressUntil := m } := h.of_view rfl
      exact hs.of_view (view_applyDrops _ drops)
  | unprepared e m prepared => exact h.of_view rfl
  | committed hc =>
      exact h.committed hp ht hc (fun i staged hi => receiptAt_executed hc.executed hc.few hi)

theorem receipted_move {s t : StableState (World T)} {p : Pool} (h : Receipted s)
    (hp : Consistent c False s p) (hmove : ChainMove c revm trie s t) : Receipted t := by
  cases hmove with
  | op op runs =>
      cases runs with
      | submitTx now txBytes who s => exact h.of_view (view_submitTx s now _ txBytes who)
      | submitIcTxInput now who canisterId tx s =>
          exact h.of_view (view_submitIcTxInput s now who canisterId tx)
      | produceBlock returns => exact receipted_produceBlock h hp returns
      | pruneBlocks retain maxOps s => exact pruneClosed_receipted.pruneBlocks retain maxOps h
      | interruptedPrune pruning k =>
          exact pruneClosed_receipted.crashed _ _ k (pruneClosed_receipted.pruning h pruning)
      | recoverPruneJournal s => exact pruneClosed_receipted.recover h
      | rebuildPendingRuntimeIndexes s => exact h.of_view (view_rebuildPendingRuntime s)
  | credited address amount _ => exact h.of_view rfl
  | cleared => exact h.of_view rfl
  | synced => exact h.of_view rfl
  | limited limit => exact h.of_view rfl
  | still => exact h

theorem receipted_nodeRun {allowed : NodeState T → NodeOp → Prop} {world : World T}
    {config : RuntimeConfig} {s : NodeState T}
    (run : NodeRun c revm trie allowed (.init world config) s) : Receipted s.chain := by
  induction run with
  | start => exact receipted_init world
  | step run _ runs ih =>
      obtain ⟨p, hp⟩ := consistent_nodeRun run
      exact receipted_move ih hp (chainMove_runs runs)

end Runs

variable {W : Type} {c : Crypto} {s : StableState W} {filter : EthLogFilterView} {q : LogQuery}

def EthLogFilterView.admits (filter : EthLogFilterView) (log : EthReceiptLogView) : Bool :=
  filter.address.all (fun address => decide (log.address = address)) &&
    filter.topic0.all (fun topic0 => decide (log.topics.head? = some topic0))

variable (c s) in
def shownLog (block : BlockData) (number txPos : Nat) (id : TxId) (log : EthReceiptLogView) :
    EthLogItemView where
  blockNumber := number
  blockHash := some block.blockHash.toList
  txIndex := txPos
  logIndex := log.logIndex
  txHash := id.toList
  ethTxHash := ethTxHash c s id
  address := log.address
  topics := log.topics
  data := log.data

variable (c s) in
def blockLogs (filter : EthLogFilterView) (number : Nat) : List EthLogItemView :=
  match loadBlock s number with
  | none => []
  | some block => block.txIds.zipIdx.flatMap (fun e =>
      match getReceipt s e.1 with
      | none => []
      | some receipt => ((receiptLogViews s receipt).filter filter.admits).map
          (shownLog c s block number e.2 e.1))

variable (c s) in
-- the logs of a range of blocks, as the receipt views of their transactions show them
def matchingLogs (filter : EthLogFilterView) (first last : Nat) : List EthLogItemView :=
  (List.range' first (last + 1 - first)).flatMap (blockLogs c s filter)

theorem parseBytes_toList {n : Nat} {bytes : Bytes} {a : ByteArr n}
    (h : parseBytes n bytes = some a) : bytes = a.toList := by
  rw [parseBytes] at h
  split_ifs at h
  obtain rfl := Option.some.inj h
  rfl

structure Parsed (filter : EthLogFilterView) (q : LogQuery) : Prop where
  address : filter.address = q.address.map (fun address => address.toList)
  topic0 : filter.topic0 = q.topic0.map (fun topic0 => topic0.toList)

theorem addressFilter_ok {address : Option (ByteArr 20)} (h : addressFilter filter = .ok address) :
    filter.address = address.map (fun address => address.toList) := by
  rw [addressFilter] at h
  split at h
  · rename_i bytes hbytes
    rw [parseAddress20WithLabel] at h
    cases hparse : parseBytes 20 bytes with
    | none =>
        rw [hparse] at h
        cases h
    | some a =>
        rw [hparse] at h
        obtain rfl := Except.ok.inj h
        exact hbytes.trans (congrArg some (parseBytes_toList hparse))
  · rename_i hbytes
    obtain rfl := Except.ok.inj h
    exact hbytes

theorem topic0Filter_ok {topic0 : Option (ByteArr 32)} (h : topic0Filter filter = .ok topic0) :
    filter.topic0 = topic0.map (fun topic0 => topic0.toList) := by
  rw [topic0Filter] at h
  split at h
  · rename_i bytes hbytes
    cases hparse : parseHash32 bytes with
    | none =>
        rw [hparse] at h
        cases h
    | some a =>
        rw [hparse] at h
        obtain rfl := Except.ok.inj h
        exact hbytes.trans (congrArg some (parseBytes_toList hparse))
  · rename_i hbytes
    obtain rfl := Except.ok.inj h
    exact hbytes

theorem parsed_of_ok (h : parseLogQuery filter = .ok q) : Parsed filter q := by
  rw [parseLogQuery] at h
  obtain ⟨address, haddress, h⟩ := bind_eq_ok.mp h
  obtain ⟨topic0, htopic0, h⟩ := bind_eq_ok.mp h
  obtain rfl := Except.ok.inj h
  exact ⟨addressFilter_ok haddress, topic0Filter_ok htopic0⟩

theorem toList_inj {n : Nat} (a b : ByteArr n) : a.toList = b.toList ↔ a = b :=
  ⟨fun h => List.Vector.eq a b h, fun h => congrArg List.Vector.toList h⟩

theorem Parsed.admits (h : Parsed filter q) (log : LogEntry) (logIndex : Nat) :
    filter.admits ⟨log.address.toList, log.topics.map (fun topic => topic.toList), log.data,
      logIndex⟩ = q.admits log := by
  rw [EthLogFilterView.admits, LogQuery.admits, h.address, h.topic0]
  cases q.address <;> cases q.topic0 <;> simp [toList_inj]

-- the two ways of adding up the logs before a transaction
theorem u32OrMax_eq (n : Nat) : u32OrMax n = min n u32Max := by
  rw [u32OrMax]
  split_ifs with h
  · rw [min_eq_left h]
  · rw [min_eq_right (by omega)]

def addLogs64 (s : StableState W) (offset : Nat) (id : TxId) : Nat :=
  match getReceipt s id with
  | some previous => saturatingAdd u64Max offset previous.logs.length
  | none => offset

theorem u32OrMax_addLogs64 (offset : Nat) (id : TxId) :
    u32OrMax (addLogs64 s offset id) = match getReceipt s id with
      | some receipt => addLogs (u32OrMax offset) receipt
      | none => u32OrMax offset := by
  rw [addLogs64]
  cases getReceipt s id with
  | none => rfl
  | some receipt =>
      have hle : u32Max ≤ u64Max := by decide
      simp only [addLogs, u32OrMax_eq, saturatingAdd]
      omega

theorem u32OrMax_foldl (ids : List TxId) (offset : Nat) :
    u32OrMax (ids.foldl (addLogs64 s) offset) = ids.foldl (fun offset id =>
      match getReceipt s id with
      | some receipt => addLogs offset receipt
      | none => offset) (u32OrMax offset) := by
  induction ids generalizing offset with
  | nil => rfl
  | cons id ids ih => rw [List.foldl_cons, List.foldl_cons, ih, u32OrMax_addLogs64]

theorem baseLogIndexLoop_eq {receipt : ReceiptLike} {ids : List TxId} {p : Nat}
    (hdistinct : ids.Nodup) (hp : ids[p]? = some receipt.txId) (offset : Nat) :
    baseLogIndexLoop s receipt ids offset = u32OrMax ((ids.take p).foldl (addLogs64 s) offset) := by
  induction ids generalizing p offset with
  | nil => exact absurd hp (by simp)
  | cons id ids ih =>
      obtain ⟨hid, hrest⟩ := List.nodup_cons.mp hdistinct
      rw [baseLogIndexLoop]
      cases p with
      | zero =>
          obtain rfl := Option.some.inj hp
          rw [if_pos rfl]
          rfl
      | succ p =>
          have hmem : receipt.txId ∈ ids := List.mem_of_getElem? hp
          rw [if_neg (fun heq : id = receipt.txId => hid (heq ▸ hmem))]
          exact ih hrest hp (addLogs64 s offset id)

theorem baseLogIndex_eq {receipt : ReceiptLike} {n p : Nat} {block : BlockData}
    (hload : loadBlock s n = some block) (hdistinct : block.txIds.Nodup)
    (hn : receipt.blockNumber.toNat = n) (hp : block.txIds[p]? = some receipt.txId) :
    baseLogIndexForReceipt s receipt = blockLogOffset s (block.txIds.take p) := by
  rw [baseLogIndexForReceipt, hn, hload]
  dsimp only
  rw [baseLogIndexLoop_eq hdistinct hp, u32OrMax_foldl]
  rfl

theorem getReceipt_some {id : TxId} {receipt : ReceiptLike} (h : getReceipt s id = some receipt) :
    ∃ ptr bytes, s.receipts.get id = some ptr ∧ s.blobStore.read ptr = .ok bytes ∧
      receipt = Receipt.fromBytes bytes ∧ receipt.txId = id ∧ receipt.txId ≠ zeroArr 32 := by
  rw [getReceipt] at h
  split at h
  · exact absurd h (by simp)
  · rename_i ptr hptr
    split at h
    · exact absurd h (by simp)
    · rename_i bytes hread
      dsimp only at h
      split_ifs at h with hbad
      obtain rfl := Option.some.inj h
      obtain ⟨hid, hzero⟩ := not_or.mp hbad
      exact ⟨ptr, bytes, hptr, hread, rfl, not_not.mp hid, hzero⟩

theorem receiptAt_loaded (h : Receipted s) {n p : Nat} {block : BlockData} {id : TxId}
    {receipt : ReceiptLike} (hload : loadBlock s n = some block) (hp : block.txIds[p]? = some id)
    (hget : getReceipt s id = some receipt) : ReceiptAt n p receipt ∧ receipt.txId = id := by
  obtain ⟨ptr, bytes, hptr, hread, rfl, hid, hzero⟩ := getReceipt_some hget
  obtain ⟨receipt, hplaced, rfl⟩ := h.placed n block p id ptr bytes hload hp hptr hread
  rw [Receipt.fromBytes_toBytes receipt hplaced.bounded] at hid hzero ⊢
  split_ifs at hid hzero ⊢
  · exact ⟨hplaced, hid⟩
  · exact absurd rfl hzero

-- a block's part of a page is what its receipts show
theorem blockItems_shown (h : Receipted s) (hq : Parsed filter q) {n : Nat} {block : BlockData}
    (hload : loadBlock s n = some block) :
    blockItems c s q block 0 0 = block.txIds.zipIdx.flatMap (fun e =>
      match getReceipt s e.1 with
      | none => []
      | some receipt => ((receiptLogViews s receipt).filter filter.admits).map
          (shownLog c s block n e.2 e.1)) := by
  rw [blockItems, List.drop_zero]
  refine List.flatMap_congr (fun e hmem => ?_)
  obtain ⟨id, p⟩ := e
  have hp : block.txIds[p]? = some id := List.mk_mem_zipIdx_iff_getElem?.mp hmem
  rw [ite_self, txItems]
  cases hget : getReceipt s id with
  | none => rfl
  | some receipt =>
      obtain ⟨hat, hid⟩ := receiptAt_loaded h hload hp hget
      have hbase := baseLogIndex_eq hload (h.distinct n block hload) hat.blockNumber
        (hid.symm ▸ hp)
      dsimp only
      rw [List.drop_zero, receiptLogViews, List.filter_map, List.map_map, hbase]
      have hsame : (fun e : LogEntry × Nat => q.admits e.1) = filter.admits ∘ (fun e =>
          { address := e.1.address.toList
            topics := e.1.topics.map (fun topic => topic.toList)
            data := e.1.data
            logIndex := saturatingAdd u32Max (blockLogOffset s (block.txIds.take p))
              (u32OrMax e.2) }) := by
        funext e
        exact (hq.admits e.1 _).symm
      rw [hsame]
      refine congrArg (fun f => List.map f _) (funext fun e => ?_)
      rw [Function.comp_apply, logItem, shownLog, hat.blockNumber, hat.txIndex, hid]

theorem itemsFrom_shown (h : Receipted s) (hq : Parsed filter q) (first last : Nat) :
    itemsFrom c s q last ⟨first, 0, 0⟩ = matchingLogs c s filter first last := by
  rw [itemsFrom, matchingLogs]
  refine List.flatMap_congr (fun n _ => ?_)
  rw [blockPart, blockLogs, EthLogsCursorView.txAt, EthLogsCursorView.logAt, ite_self]
  cases hload : loadBlock s n with
  | none => rfl
  | some block => exact blockItems_shown h hq hload

theorem blockLogs_none {n : Nat} (h : s.blocks.get n = none) : blockLogs c s filter n = [] := by
  rw [blockLogs, loadBlock_none_of_blocks h]

theorem matchingLogs_within {first last a b : Nat} (hfirst : first ≤ a) (hlast : b ≤ last)
    (hlow : ∀ n, first ≤ n → n < a → s.blocks.get n = none)
    (hhigh : ∀ n, b < n → n ≤ last → s.blocks.get n = none) :
    matchingLogs c s filter a b = matchingLogs c s filter first last := by
  have hnone (k m : Nat) (h : ∀ n, k ≤ n → n < k + m → s.blocks.get n = none) :
      (List.range' k m).flatMap (blockLogs c s filter) = [] :=
    List.flatMap_eq_nil_iff.mpr (fun n hn => by
      obtain ⟨hk, hm⟩ := List.mem_range'_1.mp hn
      exact blockLogs_none (h n hk hm))
  rw [matchingLogs, matchingLogs]
  by_cases hab : a ≤ b + 1
  · have hsplit : List.range' first (last + 1 - first) = List.range' first (a - first) ++
        (List.range' a (b + 1 - a) ++ List.range' (b + 1) (last - b)) := by
      have hhead := List.range'_append_1 (s := a) (m := b + 1 - a) (n := last - b)
      have htail := List.range'_append_1 (s := first) (m := a - first) (n := last + 1 - a)
      rw [show a + (b + 1 - a) = b + 1 by omega] at hhead
      rw [show first + (a - first) = a by omega] at htail
      rw [hhead, show b + 1 - a + (last - b) = last + 1 - a by omega, htail]
      congr 1
      omega
    rw [hsplit, List.flatMap_append, List.flatMap_append,
      hnone first (a - first) (fun n hn hm => hlow n hn (by omega)),
      hnone (b + 1) (last - b) (fun n hn hm => hhigh n (by omega) (by omega)), List.append_nil,
      List.nil_append]
  · rw [hnone a (b + 1 - a) (fun n hn hm => absurd hm (by omega)),
      hnone first (last + 1 - first) (fun n hn hm => ?_)]
    by_cases hna : n < a
    · exact hlow n hn hna
    · exact hhigh n (by omega) (by omega)

theorem matchingLogs_visible (h : Window s) (filter : EthLogFilterView) :
    matchingLogs c s filter (visibleFrom s (filter.fromBlock.getD 0)) (lastBlock s filter) =
      matchingLogs c s filter (filter.fromBlock.getD 0) (filter.toBlock.getD s.head.number) := by
  have hnext := h.next
  have hnext_le := h.next_le
  have hhead := h.clean.head_le
  generalize filter.fromBlock.getD 0 = first
  have hvisible : first ≤ visibleFrom s first ∧ ∀ n, first ≤ n → n < visibleFrom s first →
      s.blocks.get n = none := by
    rw [visibleFrom]
    cases hpruned : s.pruneState.prunedBefore with
    | none => exact ⟨le_rfl, fun n hn hlt => absurd hlt (not_lt.mpr hn)⟩
    | some pruned =>
        rw [hpruned, Chain.nextBlock] at hnext
        dsimp only
        rw [saturatingAdd, min_eq_left (by omega)]
        split_ifs with hle
        · exact ⟨by omega, fun n _ hlt => h.gone n (by omega)⟩
        · exact ⟨le_rfl, fun n hn hlt => absurd hlt (not_lt.mpr hn)⟩
  refine matchingLogs_within hvisible.1 (min_le_left _ _) hvisible.2 ?_
  intro n hlast hn
  rw [lastBlock] at hlast
  cases hget : s.blocks.get n with
  | none => rfl
  | some ptr =>
      have hwithin := (h.within n ptr hget).2
      omega

variable {T : Type} {revm : Revm} {trie : TrieCommit T}

theorem paged_logs_in_order {allowed : NodeState T → NodeOp → Prop} {world : World T}
    {config : RuntimeConfig} {s : NodeState T}
    (run : NodeRun c revm trie allowed (.init world config) s) (filter : EthLogFilterView) :
    (∀ limits items, (∀ limit ∈ limits, 1 ≤ limit) →
      Paging.Walk (logPages c s.chain filter) none limits items →
        items = matchingLogs c s.chain filter (visibleFrom s.chain (filter.fromBlock.getD 0))
          (lastBlock s.chain filter)) ∧
    (Accepted s.chain filter → ∀ limits : Nat → Nat, (∀ i, 1 ≤ limits i ∧ limits i ≤ maxLimit) →
      ∃ n items, Paging.Walk (logPages c s.chain filter) none ((List.range n).map limits) items) ∧
    (NodeRun c revm trie Uninterrupted (.init world config) s →
      matchingLogs c s.chain filter (visibleFrom s.chain (filter.fromBlock.getD 0))
          (lastBlock s.chain filter) =
        matchingLogs c s.chain filter (filter.fromBlock.getD 0)
          (filter.toBlock.getD s.chain.head.number)) := by
  have hstart : InRange s.chain filter none := trivial
  refine ⟨fun limits items hlimits walk => ?_, fun haccepted limits hlimits => ?_, fun hrun =>
    matchingLogs_visible (orderly_run hrun).window filter⟩
  · obtain ⟨q, hq⟩ := parses_of_walk walk
    have hitems := (resumes_logPages c s.chain hq).items hstart hlimits walk
    exact hitems.trans (itemsFrom_shown (receipted_nodeRun run) (parsed_of_ok hq) _ _)
  · obtain ⟨q, hq⟩ := haccepted.parses
    have hserves (cursor : Option EthLogsCursorView) (i : Nat)
        (hreach : InRange s.chain filter cursor) :
        ∃ page, logPages c s.chain filter cursor (limits i) = .ok page := by
      obtain ⟨page, hpage⟩ := rpcEthGetLogsPaged_serves (c := c) haccepted hreach (hlimits i).1
        (hlimits i).2
      exact ⟨_, by rw [logPages, hpage]; rfl⟩
    obtain ⟨n, items, walk⟩ := (resumes_logPages c s.chain hq).ends (fun i => (hlimits i).1) hserves
      hstart 0
    rw [← List.range_eq_range'] at walk
    exact ⟨n, items, walk⟩

def chattyRevm : Revm where
  inspectTx := fun view tx _ =>
    .ok (.success 21000 (.call []) [sampleLog, ⟨sampleAddress 8, [], [1]⟩, sampleLog],
      creditDiff view (sampleAddress 9) tx.nonce)
  exceeds := fun _ _ _ _ => false
  pendingQuery := fun _ _ _ => false
  traces := fun _ _ _ _ => none

def chattyChain : StableState (World Unit) :=
  nextBlock chattyRevm (queueOf chattyRevm [[2]])

def sampleFilter : EthLogFilterView :=
  ⟨none, none, some (sampleAddress 9).toList, none, none, none⟩

theorem chattyChain_paged :
    ∃ s n items, NodeRun sampleCrypto chattyRevm sampleTrie (fun _ _ => True)
        (.init emptyWorld ⟨false, .empty, zeroArr 20⟩) s ∧
      Paging.Walk (logPages sampleCrypto s.chain sampleFilter) none
        ((List.range n).map (fun _ => 1)) items ∧
      items.map (fun item => (item.blockNumber, item.logIndex)) = [(1, 0), (1, 2)] := by
  have hchain : ChainRun sampleCrypto (evm sampleCrypto chattyRevm sampleTrie) (fun _ _ => True)
      (.init emptyWorld) chattyChain :=
    run_nextBlock (run_queueOf chattyRevm [[2]])
  obtain ⟨s, run, hs⟩ := @nodeRun_of_chainRun _ _ _ _ (fun _ _ => True) _ _
    ⟨false, .empty, zeroArr 20⟩ hchain (fun _ _ => trivial)
  obtain ⟨hwalks, hends, -⟩ := paged_logs_in_order run sampleFilter
  have hlogs : chattyChain.head.number = 1 ∧ (matchingLogs sampleCrypto chattyChain sampleFilter
      (visibleFrom chattyChain 0) 1).map (fun item => (item.blockNumber, item.logIndex)) =
        [(1, 0), (1, 2)] := by decide +kernel
  rw [← hs] at hlogs
  obtain ⟨hhead, hlogs⟩ := hlogs
  have haccepted : Accepted s.chain sampleFilter := by
    refine ⟨rfl, Nat.zero_le _, ?_, ⟨_, rfl⟩⟩
    rw [hhead]
    decide
  obtain ⟨n, items, walk⟩ := hends haccepted (fun _ => 1) (fun _ => by decide)
  refine ⟨s, n, items, run, walk, ?_⟩
  have hlimits : ∀ limit ∈ (List.range n).map (fun _ => 1), 1 ≤ limit := by
    intro limit hmem
    obtain ⟨i, -, rfl⟩ := List.mem_map.mp hmem
    exact le_rfl
  rw [hwalks _ items hlimits walk, lastBlock, hhead]
  exact hlogs

end Kasane.Rpc
