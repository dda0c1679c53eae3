import Kasane.Chain.PruneSteps
import Kasane.Receipt.RoundTrip
import Kasane.Rpc.LogsPaged

namespace Kasane.Rpc

open BigEndian Codec Word Chain
open Receipt (ReceiptLike LogEntry)
open Gateway (getReceipt)

variable {W : Type} (c : Crypto)

-- what the logs of a transaction add to a page, from one of its logs on
def txItems (s : StableState W) (q : LogQuery) (block : BlockData) (id : TxId)
    (offset logStart : Nat) : List EthLogItemView :=
  match getReceipt s id with
  | none => []
  | some receipt => ((receipt.logs.zipIdx.drop logStart).filter (fun e => q.admits e.1)).map
      (fun e => logItem c s block receipt id (saturatingAdd u32Max offset (u32OrMax e.2)) e.1)

def blockItems (s : StableState W) (q : LogQuery) (block : BlockData) (txStart logStart : Nat) :
    List EthLogItemView :=
  (block.txIds.zipIdx.drop txStart).flatMap (fun e =>
    txItems c s q block e.1 (blockLogOffset s (block.txIds.take e.2))
      (if e.2 = txStart then logStart else 0))

def EthLogsCursorView.txAt (cur : EthLogsCursorView) (number : Nat) : Nat :=
  if number = cur.blockNumber then cur.txIndex else 0

def EthLogsCursorView.logAt (cur : EthLogsCursorView) (number : Nat) : Nat :=
  if number = cur.blockNumber then cur.logIndex else 0

def blockPart (s : StableState W) (q : LogQuery) (cur : EthLogsCursorView) (number : Nat) :
    List EthLogItemView :=
  match loadBlock s number with
  | none => []
  | some block => blockItems c s q block (cur.txAt number) (cur.logAt number)

def blockTxs (s : StableState W) (cur : EthLogsCursorView) (number : Nat) : Nat :=
  match loadBlock s number with
  | none => 0
  | some block => block.txIds.length - cur.txAt number

def itemsFrom (s : StableState W) (q : LogQuery) (last : Nat) (cur : EthLogsCursorView) :
    List EthLogItemView :=
  (List.range' cur.blockNumber (last + 1 - cur.blockNumber)).flatMap (blockPart c s q cur)

def txsFrom (s : StableState W) (last : Nat) (cur : EthLogsCursorView) : Nat :=
  ((List.range' cur.blockNumber (last + 1 - cur.blockNumber)).map (blockTxs s cur)).sum

theorem u32OrMax_of_le {n : Nat} (h : n ≤ u32Max) : u32OrMax n = n := if_pos h

-- a page of logs is full at one of the logs, or none is left
inductive LogsScanned (q : LogQuery) (limit : Nat) (item : LogEntry → Nat → EthLogItemView)
    (stop : Nat → EthLogsCursorView) (logs : List (LogEntry × Nat)) (out : List EthLogItemView) :
    Except EthLogsPageView (List EthLogItemView) → Prop
  | passed : LogsScanned q limit item stop logs out
      (.ok (out ++ (logs.filter (fun e => q.admits e.1)).map (fun e => item e.1 e.2)))
  | full (n : Nat) (e : LogEntry × Nat) (items : List EthLogItemView) (at_ : logs[n]? = some e)
      (filled : items.length = limit)
      (taken : items ++ ((logs.drop (n + 1)).filter (fun e => q.admits e.1)).map
          (fun e => item e.1 e.2) =
        out ++ (logs.filter (fun e => q.admits e.1)).map (fun e => item e.1 e.2)) :
      LogsScanned q limit item stop logs out (.error ⟨items, some (stop (e.2 + 1))⟩)

theorem LogsScanned.cons {q : LogQuery} {limit : Nat} {item : LogEntry → Nat → EthLogItemView}
    {stop : Nat → EthLogsCursorView} {e : LogEntry × Nat} {rest : List (LogEntry × Nat)}
    {out out' : List EthLogItemView} {r : Except EthLogsPageView (List EthLogItemView)}
    (hout : out' ++ (rest.filter (fun e => q.admits e.1)).map (fun e => item e.1 e.2) =
      out ++ ((e :: rest).filter (fun e => q.admits e.1)).map (fun e => item e.1 e.2))
    (h : LogsScanned q limit item stop rest out' r) :
    LogsScanned q limit item stop (e :: rest) out r := by
  cases h with
  | passed =>
      rw [hout]
      exact .passed
  | full n e items at_ filled taken =>
      rw [hout] at taken
      exact .full (n + 1) e items at_ filled taken

theorem logsScanned (q : LogQuery) (limit : Nat) (item : LogEntry → Nat → EthLogItemView)
    (stop : Nat → EthLogsCursorView) (logs : List (LogEntry × Nat)) (out : List EthLogItemView) :
    LogsScanned q limit item stop logs out (scanLogs q limit item stop logs out) := by
  induction logs generalizing out with
  | nil =>
      rw [scanLogs]
      simpa using @LogsScanned.passed q limit item stop [] out
  | cons e rest ih =>
      obtain ⟨log, index⟩ := e
      rw [scanLogs]
      by_cases hadmits : q.admits log = false
      · have hfilter : ((log, index) :: rest).filter (fun e => q.admits e.1) =
            rest.filter (fun e => q.admits e.1) := List.filter_cons_of_neg (by simp [hadmits])
        rw [if_pos hadmits]
        exact (ih out).cons (by rw [hfilter])
      · have hfilter : ((log, index) :: rest).filter (fun e => q.admits e.1) =
            (log, index) :: rest.filter (fun e => q.admits e.1) :=
          List.filter_cons_of_pos (by simpa using hadmits)
        have htaken : (out ++ [item log index]) ++ (rest.filter (fun e => q.admits e.1)).map
              (fun e => item e.1 e.2) =
            out ++ (((log, index) :: rest).filter (fun e => q.admits e.1)).map
              (fun e => item e.1 e.2) := by
          rw [hfilter, List.map_cons, List.append_assoc]
          rfl
        rw [if_neg hadmits]
        dsimp only
        split_ifs with hfull
        · exact .full 0 (log, index) (out ++ [item log index]) rfl hfull htaken
        · exact (ih (out ++ [item log index])).cons htaken

variable {c} {s : StableState W} {q : LogQuery} {limit : Nat}

theorem blockItems_cons {block : BlockData} {p : Nat} (h : p < block.txIds.length)
    (logStart : Nat) :
    blockItems c s q block p logStart =
      txItems c s q block block.txIds[p] (blockLogOffset s (block.txIds.take p)) logStart ++
        blockItems c s q block (p + 1) 0 := by
  have hdrop : block.txIds.zipIdx.drop p =
      (block.txIds[p], p) :: block.txIds.zipIdx.drop (p + 1) := by
    rw [List.drop_eq_getElem_cons (by simpa using h)]
    simp
  have hlater : (block.txIds.zipIdx.drop (p + 1)).flatMap (fun e =>
        txItems c s q block e.1 (blockLogOffset s (block.txIds.take e.2))
          (if e.2 = p then logStart else 0)) = blockItems c s q block (p + 1) 0 := by
    refine List.flatMap_congr (fun e hmem => ?_)
    obtain ⟨i, hi, rfl⟩ := List.mem_drop_iff_getElem.mp hmem
    rw [List.getElem_zipIdx, if_neg (by omega), ite_self]
  rw [blockItems, hdrop, List.flatMap_cons, hlater, if_pos rfl]

theorem blockItems_nil {block : BlockData} {p : Nat} (h : block.txIds.length ≤ p) (logStart : Nat) :
    blockItems c s q block p logStart = [] := by
  rw [blockItems, List.drop_of_length_le (by simpa using h), List.flatMap_nil]

theorem blockLogOffset_take {ids : List TxId} {p : Nat} (h : p < ids.length) :
    blockLogOffset s (ids.take (p + 1)) = match getReceipt s ids[p] with
      | some receipt => addLogs (blockLogOffset s (ids.take p)) receipt
      | none => blockLogOffset s (ids.take p) := by
  rw [List.take_succ_eq_append_getElem h, blockLogOffset, List.foldl_append]
  rfl

variable (c s q limit) in
inductive TxsScanned (number : Nat) (block : BlockData) (p logStart : Nat) (x : LogScan) :
    Except EthLogsPageView LogScan → Prop
  | passed (y : LogScan) (taken : y.out = x.out ++ blockItems c s q block p logStart)
      (scanned : y.scanned ≤ x.scanned + (block.txIds.length - p)) :
      TxsScanned number block p logStart x (.ok y)
  | stopped (items : List EthLogItemView) (t j : Nat) (le : p ≤ t) (lt : t < block.txIds.length)
      (taken : items ++ blockItems c s q block t j = x.out ++ blockItems c s q block p logStart)
      (cause : items.length = limit ∨ maxScannedReceipts + p ≤ x.scanned + t) :
      TxsScanned number block p logStart x (.error ⟨items, some ⟨number, t, j⟩⟩)

theorem TxsScanned.cons {number : Nat} {block : BlockData} {p logStart : Nat} {x y : LogScan}
    {r : Except EthLogsPageView LogScan} (hp : p < block.txIds.length)
    (hout : y.out = x.out ++ txItems c s q block block.txIds[p]
      (blockLogOffset s (block.txIds.take p)) logStart)
    (hscanned : y.scanned ≤ x.scanned + 1)
    (h : TxsScanned c s q limit number block (p + 1) 0 y r) :
    TxsScanned c s q limit number block p logStart x r := by
  have htotal : y.out ++ blockItems c s q block (p + 1) 0 =
      x.out ++ blockItems c s q block p logStart := by
    rw [hout, blockItems_cons hp, List.append_assoc]
  cases h with
  | passed z taken scanned => exact .passed z (taken.trans htotal) (by omega)
  | stopped items t j le lt taken cause =>
      exact .stopped items t j (by omega) lt (taken.trans htotal) (cause.imp_right (by omega))

theorem txItems_some {block : BlockData} {id : TxId} {receipt : ReceiptLike}
    (h : getReceipt s id = some receipt) (offset logStart : Nat) :
    txItems c s q block id offset logStart =
      ((receipt.logs.zipIdx.drop logStart).filter (fun e => q.admits e.1)).map
        (fun e => logItem c s block receipt id (saturatingAdd u32Max offset (u32OrMax e.2)) e.1) := by
  rw [txItems, h]

theorem txItems_none {block : BlockData} {id : TxId} (h : getReceipt s id = none)
    (offset logStart : Nat) : txItems c s q block id offset logStart = [] := by
  rw [txItems, h]

theorem logs_length_getReceipt {id : TxId} {receipt : ReceiptLike}
    (h : getReceipt s id = some receipt) : receipt.logs.length ≤ Receipt.maxLogsPerTx := by
  rw [getReceipt] at h
  split at h
  · exact absurd h (by simp)
  · split at h
    · exact absurd h (by simp)
    · dsimp only at h
      split_ifs at h
      obtain rfl := Option.some.inj h
      exact Receipt.fromBytes_logs _

-- a transaction is passed over when its logs leave room on the page, and cut when they fill it
theorem txsScanned {number : Nat} {block : BlockData} {logStart : Nat → Nat}
    (hlength : block.txIds.length ≤ maxTxsPerBlock) {p : Nat} {x : LogScan}
    (hoffset : x.offset = blockLogOffset s (block.txIds.take p))
    (hfirst : maxScannedReceipts ≤ x.scanned → logStart p = 0)
    (hlater : ∀ n, p < n → logStart n = 0) :
    TxsScanned c s q limit number block p (logStart p) x
      (scanTxs c s q limit number block logStart (block.txIds.zipIdx.drop p) x) := by
  induction hleft : block.txIds.length - p generalizing p x with
  | zero =>
      have hp : block.txIds.length ≤ p := by omega
      rw [List.drop_of_length_le (by simpa using hp), scanTxs]
      exact .passed x (by rw [blockItems_nil hp, List.append_nil]) (Nat.le_add_right _ _)
  | succ left ih =>
      have hp : p < block.txIds.length := by omega
      have hsmall : u32OrMax p = p := u32OrMax_of_le (by
        have : maxTxsPerBlock ≤ u32Max := by decide
        omega)
      have hnext : logStart (p + 1) = 0 := hlater (p + 1) (Nat.lt_succ_self p)
      have hfurther (n : Nat) (hn : p + 1 < n) : logStart n = 0 := hlater n (by omega)
      have hdrop : block.txIds.zipIdx.drop p =
          (block.txIds[p], p) :: block.txIds.zipIdx.drop (p + 1) := by
        rw [List.drop_eq_getElem_cons (by simpa using hp)]
        simp
      have htake := blockLogOffset_take (s := s) hp
      rw [hdrop, scanTxs, hsmall]
      split_ifs with hcap
      · rw [hfirst hcap]
        exact .stopped x.out p 0 le_rfl hp rfl (.inr (by omega))
      · cases hget : getReceipt s block.txIds[p] with
        | none =>
            rw [hget] at htake
            refine TxsScanned.cons hp ?_ (Nat.le_succ _)
              (hnext ▸ ih (hoffset.trans htake.symm) (fun _ => hnext) hfurther (by omega))
            rw [txItems_none hget, List.append_nil]
        | some receipt =>
            rw [hget] at htake
            dsimp only
            have hlogs := logsScanned q limit
              (fun log index => logItem c s block receipt block.txIds[p]
                (saturatingAdd u32Max x.offset (u32OrMax index)) log)
              (fun index => ⟨number, p, u32OrMax index⟩)
              (receipt.logs.zipIdx.drop (logStart p)) x.out
            have hitems : txItems c s q block block.txIds[p] x.offset (logStart p) = _ :=
              txItems_some hget x.offset (logStart p)
            generalize scanLogs q limit _ _ _ _ = r at hlogs
            cases hlogs with
            | passed =>
                dsimp only
                rw [← hitems]
                refine TxsScanned.cons hp ?_ le_rfl
                  (hnext ▸ ih (x := ⟨_, x.scanned + 1, addLogs x.offset receipt⟩) ?_
                    (fun _ => hnext) hfurther (by omega))
                · rw [hoffset]
                · exact (congrArg (fun offset => addLogs offset receipt) hoffset).trans htake.symm
            | full n e items at_ filled taken =>
                rw [← hitems, List.drop_drop] at taken
                rw [List.getElem?_drop, List.getElem?_zipIdx] at at_
                obtain ⟨log, hlog, rfl⟩ := Option.map_eq_some_iff.mp at_
                have hlt := (List.getElem?_eq_some_iff.mp hlog).1
                have hfew := logs_length_getReceipt hget
                have hstop : u32OrMax (logStart p + n + 1) = logStart p + (n + 1) :=
                  u32OrMax_of_le (by
                    have : Receipt.maxLogsPerTx ≤ u32Max := by decide
                    omega)
                dsimp only
                rw [Nat.zero_add, hstop]
                refine .stopped items p (logStart p + (n + 1)) le_rfl hp ?_ (.inl filled)
                rw [blockItems_cons hp, blockItems_cons hp, ← List.append_assoc, ← hoffset,
                  txItems_some hget, taken, List.append_assoc]

theorem EthLogsCursorView.txAt_past {cur : EthLogsCursorView} {number : Nat}
    (h : cur.blockNumber < number) : cur.txAt number = 0 := if_neg (by omega)

theorem EthLogsCursorView.logAt_past {cur : EthLogsCursorView} {number : Nat}
    (h : cur.blockNumber < number) : cur.logAt number = 0 := if_neg (by omega)

theorem blockPart_past {cur cur' : EthLogsCursorView} {number : Nat}
    (h : cur.blockNumber < number) (h' : cur'.blockNumber < number) :
    blockPart c s q cur number = blockPart c s q cur' number := by
  rw [blockPart, blockPart, cur.txAt_past h, cur'.txAt_past h', cur.logAt_past h, cur'.logAt_past h']

theorem blockTxs_past {cur cur' : EthLogsCursorView} {number : Nat}
    (h : cur.blockNumber < number) (h' : cur'.blockNumber < number) :
    blockTxs s cur number = blockTxs s cur' number := by
  rw [blockTxs, blockTxs, cur.txAt_past h, cur'.txAt_past h']

section Cut

variable {start : EthLogsCursorView} {block : BlockData} {number t j k last : Nat}

theorem itemsFrom_cut (hload : loadBlock s number = some block) (hfrom : start.blockNumber ≤ number)
    (hlast : number + (k + 1) = last + 1) :
    itemsFrom c s q last ⟨number, t, j⟩ =
      blockItems c s q block t j ++ (List.range' (number + 1) k).flatMap (blockPart c s q start) := by
  have hrange : last + 1 - number = k + 1 := by omega
  have hfirst : blockPart c s q ⟨number, t, j⟩ number = blockItems c s q block t j := by
    simp [blockPart, hload, EthLogsCursorView.txAt, EthLogsCursorView.logAt]
  rw [itemsFrom]
  dsimp only
  rw [hrange, List.range'_succ, List.flatMap_cons, hfirst]
  refine congrArg _ (List.flatMap_congr (fun n hmem => ?_))
  have hn := (List.mem_range'_1.mp hmem).1
  exact blockPart_past hn (lt_of_le_of_lt hfrom hn)

theorem txsFrom_cut (hload : loadBlock s number = some block) (hfrom : start.blockNumber ≤ number)
    (hlast : number + (k + 1) = last + 1) :
    txsFrom s last ⟨number, t, j⟩ =
      (block.txIds.length - t) + ((List.range' (number + 1) k).map (blockTxs s start)).sum := by
  have hrange : last + 1 - number = k + 1 := by omega
  have hfirst : blockTxs s ⟨number, t, j⟩ number = block.txIds.length - t := by
    simp [blockTxs, hload, EthLogsCursorView.txAt]
  rw [txsFrom]
  dsimp only
  rw [hrange, List.range'_succ, List.map_cons, List.sum_cons, hfirst]
  refine congrArg _ (congrArg List.sum (List.map_congr_left (fun n hmem => ?_)))
  have hn := (List.mem_range'_1.mp hmem).1
  exact blockTxs_past hn (lt_of_le_of_lt hfrom hn)

end Cut

variable (c s q limit) in
inductive BlocksScanned (last : Nat) (start : EthLogsCursorView) (number k : Nat)
    (x : List EthLogItemView × Nat) : Except EthLogsPageView (List EthLogItemView) → Prop
  | passed : BlocksScanned last start number k x
      (.ok (x.1 ++ (List.range' number k).flatMap (blockPart c s q start)))
  | stopped (items : List EthLogItemView) (next : EthLogsCursorView)
      (le : number ≤ next.blockNumber) (le_last : next.blockNumber ≤ last)
      (taken : items ++ itemsFrom c s q last next =
        x.1 ++ (List.range' number k).flatMap (blockPart c s q start))
      (fewer : txsFrom s last next ≤ ((List.range' number k).map (blockTxs s start)).sum)
      (cause : items.length = limit ∨ maxScannedReceipts + txsFrom s last next ≤
        x.2 + ((List.range' number k).map (blockTxs s start)).sum) :
      BlocksScanned last start number k x (.error ⟨items, some next⟩)

theorem BlocksScanned.cons {last number k : Nat} {start : EthLogsCursorView}
    {x y : List EthLogItemView × Nat} {r : Except EthLogsPageView (List EthLogItemView)}
    (hout : y.1 = x.1 ++ blockPart c s q start number)
    (hscanned : y.2 ≤ x.2 + blockTxs s start number)
    (h : BlocksScanned c s q limit last start (number + 1) k y r) :
    BlocksScanned c s q limit last start number (k + 1) x r := by
  have htotal : y.1 ++ (List.range' (number + 1) k).flatMap (blockPart c s q start) =
      x.1 ++ (List.range' number (k + 1)).flatMap (blockPart c s q start) := by
    rw [hout, List.range'_succ, List.flatMap_cons, List.append_assoc]
  have hsum : ((List.range' number (k + 1)).map (blockTxs s start)).sum =
      blockTxs s start number + ((List.range' (number + 1) k).map (blockTxs s start)).sum := by
    rw [List.range'_succ, List.map_cons, List.sum_cons]
  cases h with
  | passed =>
      rw [htotal]
      exact .passed
  | stopped items next le le_last taken fewer cause =>
      exact .stopped items next (by omega) le_last (taken.trans htotal) (by omega)
        (cause.imp_right (by omega))

theorem blocksScanned {last number k : Nat} {start : EthLogsCursorView}
    {x : List EthLogItemView × Nat} (hfrom : start.blockNumber ≤ number)
    (hlast : k = last + 1 - number) (hfirst : number = start.blockNumber → x.2 = 0) :
    BlocksScanned c s q limit last start number k x
      (scanBlocks c s q limit start (List.range' number k) x) := by
  induction k generalizing number x with
  | zero =>
      rw [List.range'_zero, scanBlocks]
      simpa using @BlocksScanned.passed W c s q limit last start number 0 x
  | succ k ih =>
      have hlater (y : List EthLogItemView × Nat) :
          BlocksScanned c s q limit last start (number + 1) k y
            (scanBlocks c s q limit start (List.range' (number + 1) k) y) :=
        ih (by omega) (by omega) (fun h => absurd h (by omega))
      rw [List.range'_succ, scanBlocks]
      cases hload : loadBlock s number with
      | none =>
          refine (hlater x).cons ?_ (Nat.le_add_right _ _)
          rw [blockPart, hload, List.append_nil]
      | some block =>
          have hpart : blockPart c s q start number =
              blockItems c s q block (start.txAt number) (start.logAt number) := by
            rw [blockPart, hload]
          have htxs : blockTxs s start number = block.txIds.length - start.txAt number := by
            rw [blockTxs, hload]
          dsimp only
          generalize hlogStart : (fun txPos : Nat => if number = start.blockNumber ∧
            txPos = (if number = start.blockNumber then start.txIndex else 0) then
              start.logIndex else 0) = logStart
          have hlog : logStart (start.txAt number) = start.logAt number := by
            rw [← hlogStart]
            simp [EthLogsCursorView.txAt, EthLogsCursorView.logAt]
          have hpast (n : Nat) (hn : start.txAt number < n) : logStart n = 0 := by
            rw [← hlogStart]
            exact if_neg (fun h => absurd h.2 (ne_of_gt hn))
          have hcapped (hcap : maxScannedReceipts ≤ x.2) : logStart (start.txAt number) = 0 := by
            rw [hlog]
            exact if_neg (fun h => absurd (hfirst h ▸ hcap) (by decide))
          have hscan : TxsScanned c s q limit number block (start.txAt number)
              (logStart (start.txAt number))
              ⟨x.1, x.2, blockLogOffset s (block.txIds.take (start.txAt number))⟩
              (scanTxs c s q limit number block logStart
                (block.txIds.zipIdx.drop (start.txAt number))
                ⟨x.1, x.2, blockLogOffset s (block.txIds.take (start.txAt number))⟩) :=
            txsScanned (txIds_length_loadBlock hload) rfl hcapped hpast
          rw [hlog] at hscan
          have htx : (if number = start.blockNumber then start.txIndex else 0) =
              start.txAt number := rfl
          rw [htx]
          generalize scanTxs c s q limit number block logStart _ _ = r at hscan
          cases hscan with
          | passed y taken scanned =>
              exact (hlater (y.out, y.scanned)).cons (by rw [hpart]; exact taken)
                (by rw [htxs]; exact scanned)
          | stopped items t j le lt taken cause =>
              have hfit : number + (k + 1) = last + 1 := by omega
              have hfewer := txsFrom_cut (t := t) (j := j) hload hfrom hfit
              have hsum : ((List.range' number (k + 1)).map (blockTxs s start)).sum =
                  blockTxs s start number +
                    ((List.range' (number + 1) k).map (blockTxs s start)).sum := by
                rw [List.range'_succ, List.map_cons, List.sum_cons]
              dsimp only at cause
              refine .stopped items ⟨number, t, j⟩ le_rfl (by dsimp only; omega) ?_ (by omega)
                (cause.imp_right (by omega))
              rw [itemsFrom_cut hload hfrom hfit, List.range'_succ, List.flatMap_cons, hpart,
                ← List.append_assoc, ← List.append_assoc, taken]

def LogQuery.work (q : LogQuery) (c : Crypto) (s : StableState W) (last : Nat)
    (cur : EthLogsCursorView) : Nat := (itemsFrom c s q last cur).length + txsFrom s last cur

-- a page ends the walk, or its cursor stands at what it left out
inductive PageScanned (c : Crypto) (s : StableState W) (q : LogQuery) (last : Nat)
    (cur : EthLogsCursorView) : EthLogsPageView → Prop
  | last : PageScanned c s q last cur ⟨itemsFrom c s q last cur, none⟩
  | more (items : List EthLogItemView) (next : EthLogsCursorView)
      (le : cur.blockNumber ≤ next.blockNumber) (le_last : next.blockNumber ≤ last)
      (taken : items ++ itemsFrom c s q last next = itemsFrom c s q last cur)
      (less : q.work c s last next < q.work c s last cur) :
      PageScanned c s q last cur ⟨items, some next⟩

theorem pageScanned (hlimit : 1 ≤ limit) (last : Nat) (cur : EthLogsCursorView) :
    PageScanned c s q last cur (scanPage c s q limit last cur) := by
  have hscan := @blocksScanned W c s q limit last cur.blockNumber (last + 1 - cur.blockNumber) cur
    ([], 0) le_rfl rfl (fun _ => rfl)
  rw [scanPage]
  generalize scanBlocks c s q limit cur _ _ = r at hscan
  cases hscan with
  | passed => exact .last
  | stopped items next le le_last taken fewer cause =>
      rw [List.nil_append] at taken
      rw [Nat.zero_add] at cause
      have hlength := congrArg List.length taken
      rw [List.length_append] at hlength
      change _ = (itemsFrom c s q last cur).length at hlength
      refine .more items next le le_last taken ?_
      rw [LogQuery.work, LogQuery.work]
      have hcap : 0 < maxScannedReceipts := by decide
      change txsFrom s last next ≤ txsFrom s last cur at fewer
      change _ ∨ _ ≤ txsFrom s last cur at cause
      omega

variable (c s) in
def logPages (filter : EthLogFilterView) :
    Paging.Fetch EthLogsCursorView EthLogItemView GetLogsErrorView := fun cursor limit =>
  (rpcEthGetLogsPaged c s filter cursor limit).map (fun page => (page.items, page.nextCursor))

def startCursor (s : StableState W) (filter : EthLogFilterView) :
    Option EthLogsCursorView → EthLogsCursorView
  | none => ⟨visibleFrom s (filter.fromBlock.getD 0), 0, 0⟩
  | some cur => cur

def InRange (s : StableState W) (filter : EthLogFilterView) : Option EthLogsCursorView → Prop
  | none => True
  | some cur => visibleFrom s (filter.fromBlock.getD 0) ≤ cur.blockNumber ∧
      cur.blockNumber ≤ lastBlock s filter

structure Accepted (s : StableState W) (filter : EthLogFilterView) : Prop where
  topic1 : filter.topic1 = none
  ordered : filter.fromBlock.getD 0 ≤ filter.toBlock.getD s.head.number
  span : filter.toBlock.getD s.head.number - filter.fromBlock.getD 0 ≤ maxBlockSpan
  parses : ∃ q, parseLogQuery filter = .ok q

theorem rpcEthGetLogsPaged_ok {filter : EthLogFilterView} {cursor : Option EthLogsCursorView}
    {page : EthLogsPageView} (h : rpcEthGetLogsPaged c s filter cursor limit = .ok page) :
    ∃ q, parseLogQuery filter = .ok q ∧ page = scanPage c s q (requestedLimit filter limit)
      (lastBlock s filter) (startCursor s filter cursor) := by
  rw [rpcEthGetLogsPaged] at h
  split_ifs at h
  cases hparse : parseLogQuery filter with
  | error e =>
      rw [hparse] at h
      exact absurd h (by simp)
  | ok q =>
      rw [hparse] at h
      cases cursor with
      | none => exact ⟨q, rfl, (Except.ok.inj h).symm⟩
      | some cur =>
          dsimp only at h
          split_ifs at h
          exact ⟨q, rfl, (Except.ok.inj h).symm⟩

theorem rpcEthGetLogsPaged_serves {filter : EthLogFilterView} (h : Accepted s filter)
    {cursor : Option EthLogsCursorView} (hcursor : InRange s filter cursor) (hone : 1 ≤ limit)
    (hmax : limit ≤ maxLimit) : ∃ page, rpcEthGetLogsPaged c s filter cursor limit = .ok page := by
  obtain ⟨q, hparse⟩ := h.parses
  have hordered := h.ordered
  have hspan := h.span
  have hlimit : requestedLimit filter limit = limit := by
    rw [requestedLimit, if_neg (by omega), max_eq_left hone]
  rw [rpcEthGetLogsPaged, if_neg (by simp [h.topic1]), if_neg (by omega), if_neg (by omega), hlimit,
    if_neg (by omega), hparse]
  cases cursor with
  | none => exact ⟨_, rfl⟩
  | some cur =>
      obtain ⟨hle, hle_last⟩ := hcursor
      dsimp only
      rw [if_neg (by omega)]
      exact ⟨_, rfl⟩

theorem logPages_ok {filter : EthLogFilterView} {cursor : Option EthLogsCursorView}
    {items : List EthLogItemView} {next : Option EthLogsCursorView}
    (h : logPages c s filter cursor limit = .ok (items, next)) :
    rpcEthGetLogsPaged c s filter cursor limit = .ok ⟨items, next⟩ := by
  rw [logPages] at h
  cases hrpc : rpcEthGetLogsPaged c s filter cursor limit with
  | error e =>
      rw [hrpc] at h
      exact absurd h (by simp [Except.map])
  | ok page =>
      rw [hrpc] at h
      obtain ⟨rfl, rfl⟩ := Prod.mk.inj (Except.ok.inj h)
      rfl

theorem parses_of_walk {filter : EthLogFilterView} {cursor : Option EthLogsCursorView}
    {limits : List Nat} {items : List EthLogItemView}
    (walk : Paging.Walk (logPages c s filter) cursor limits items) :
    ∃ q, parseLogQuery filter = .ok q := by
  cases walk with
  | last fetched =>
      obtain ⟨q, hq, -⟩ := rpcEthGetLogsPaged_ok (logPages_ok fetched)
      exact ⟨q, hq⟩
  | more fetched _ =>
      obtain ⟨q, hq, -⟩ := rpcEthGetLogsPaged_ok (logPages_ok fetched)
      exact ⟨q, hq⟩

variable (c s) in
theorem resumes_logPages {filter : EthLogFilterView} {q : LogQuery}
    (hparse : parseLogQuery filter = .ok q) :
    Paging.Resumes (logPages c s filter) (InRange s filter)
      (fun cursor => itemsFrom c s q (lastBlock s filter) (startCursor s filter cursor))
      (fun cursor => q.work c s (lastBlock s filter) (startCursor s filter cursor)) := by
  have hpage (cursor : Option EthLogsCursorView) (limit : Nat) (items : List EthLogItemView)
      (next : Option EthLogsCursorView) (h : logPages c s filter cursor limit = .ok (items, next)) :
      PageScanned c s q (lastBlock s filter) (startCursor s filter cursor) ⟨items, next⟩ := by
    obtain ⟨q', hq', hpage⟩ := rpcEthGetLogsPaged_ok (logPages_ok h)
    obtain rfl := Except.ok.inj (hparse.symm.trans hq')
    rw [hpage]
    exact pageScanned (le_max_right _ _) _ _
  constructor
  · intro cursor limit items hreach hone h
    cases hpage cursor limit items none h with
    | last => rfl
  · intro cursor limit items next hreach hone h
    cases hpage cursor limit items (some next) h with
    | more _ _ le le_last taken less =>
        refine ⟨⟨?_, le_last⟩, taken, less⟩
        cases cursor with
        | none => exact le
        | some cur => exact hreach.1.trans le

end Kasane.Rpc
