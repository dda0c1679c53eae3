import Kasane.Lib.Ring
import Kasane.Lib.Word
import Mathlib.Algebra.BigOperators.Group.List.Basic
import Mathlib.Data.List.Induction

namespace Kasane.Chain

open Word

def metricsBuckets : Nat := 256

structure MetricsBucket where
  blockNumber : Nat
  timestamp : Nat
  txs : Nat
  drops : Nat
deriving DecidableEq, Repr

def MetricsBucket.empty : MetricsBucket := ⟨0, 0, 0, 0⟩

structure MetricsWindowSummary where
  blocks : Nat
  txs : Nat
  drops : Nat
  firstTs : Nat
  lastTs : Nat
deriving DecidableEq, Repr

namespace MetricsWindowSummary

def empty : MetricsWindowSummary := ⟨0, 0, 0, 0, 0⟩

def add (summary : MetricsWindowSummary) (bucket : MetricsBucket) : MetricsWindowSummary where
  blocks := saturatingAdd u64Max summary.blocks 1
  txs := saturatingAdd u64Max summary.txs bucket.txs
  drops := saturatingAdd u64Max summary.drops bucket.drops
  firstTs := if summary.firstTs = 0 then bucket.timestamp else summary.firstTs
  lastTs := bucket.timestamp

def blockRatePerSecX1000 (summary : MetricsWindowSummary) : Option Nat :=
  if summary.blocks < 2 then none
  else
    let delta := summary.lastTs - summary.firstTs
    if delta = 0 then none
    else
      let produced := summary.blocks - 1
      some (saturatingMul u64Max produced 1000 / delta)

end MetricsWindowSummary

structure MetricsStateV1 where
  emaBlockRateX1000 : Nat
  emaTxsPerBlockX1000 : Nat
  lastEmaTimestamp : Nat
  bucketCursor : Nat
  buckets : Vector MetricsBucket metricsBuckets

namespace MetricsStateV1

def new : MetricsStateV1 where
  emaBlockRateX1000 := 0
  emaTxsPerBlockX1000 := 0
  lastEmaTimestamp := 0
  bucketCursor := 0
  buckets := .replicate metricsBuckets .empty

def ema (average sample : Nat) : Nat :=
  saturatingAdd u64Max (saturatingMul u64Max average 4) sample / 5

def updateEma (m : MetricsStateV1) (timestamp txs : Nat) : MetricsStateV1 :=
  if timestamp = 0 then m
  else if m.lastEmaTimestamp = 0 then
    { m with
      lastEmaTimestamp := timestamp
      emaTxsPerBlockX1000 := saturatingMul u64Max txs 1000 }
  else
    let delta := timestamp - m.lastEmaTimestamp
    if delta = 0 then m
    else
      { m with
        emaBlockRateX1000 := ema m.emaBlockRateX1000 (1000 / delta)
        emaTxsPerBlockX1000 := ema m.emaTxsPerBlockX1000 (saturatingMul u64Max txs 1000)
        lastEmaTimestamp := timestamp }

def slot (cursor : Nat) : Fin metricsBuckets := ⟨cursor % metricsBuckets, Nat.mod_lt _ (by decide)⟩

def wrappingSub (a b : Nat) : Nat := (a + 2 ^ 32 - b) % 2 ^ 32

def recordBlock (m : MetricsStateV1) (blockNumber timestamp txs drops : Nat) : MetricsStateV1 :=
  let m := m.updateEma timestamp txs
  { m with
    buckets := m.buckets.set (slot m.bucketCursor) ⟨blockNumber, timestamp, txs, drops⟩
    bucketCursor := (m.bucketCursor + 1) % 2 ^ 32 % metricsBuckets }

def bucketAt (buckets : Vector MetricsBucket metricsBuckets) (cursor : Nat) : MetricsBucket :=
  buckets[slot cursor]

def windowLoop (buckets : Vector MetricsBucket metricsBuckets) :
    Nat → Nat → MetricsWindowSummary → MetricsWindowSummary
  | 0, _, summary => summary
  | remaining + 1, cursor, summary =>
      let cursor := wrappingSub cursor 1
      let bucket := bucketAt buckets cursor
      if bucket.timestamp = 0 ∧ bucket.blockNumber = 0 then summary
      else windowLoop buckets remaining cursor (summary.add bucket)

def windowSummary (m : MetricsStateV1) (window : Nat) : MetricsWindowSummary :=
  let window := min window metricsBuckets
  if window = 0 then .empty
  else
    let cursor := if m.bucketCursor = 0 then metricsBuckets else m.bucketCursor
    windowLoop m.buckets window cursor .empty

def recordBlocks (blocks : List MetricsBucket) : MetricsStateV1 :=
  blocks.foldl (fun m b => m.recordBlock b.blockNumber b.timestamp b.txs b.drops) .new

@[simp] theorem val_slot (cursor : Nat) : (slot cursor).val = cursor % metricsBuckets := rfl

theorem updateEma_eq (m : MetricsStateV1) (timestamp txs : Nat) :
    (m.updateEma timestamp txs).bucketCursor = m.bucketCursor ∧
      (m.updateEma timestamp txs).buckets = m.buckets := by
  rw [updateEma]
  split_ifs
  · exact ⟨rfl, rfl⟩
  · exact ⟨rfl, rfl⟩
  · dsimp only
    split_ifs
    · exact ⟨rfl, rfl⟩
    · exact ⟨rfl, rfl⟩

theorem holds_recordBlocks (blocks : List MetricsBucket) :
    (recordBlocks blocks).bucketCursor = blocks.length % metricsBuckets ∧
      Ring.Holds blocks .empty (recordBlocks blocks).buckets := by
  induction blocks using List.reverseRecOn with
  | nil => exact ⟨rfl, Ring.holds_replicate _⟩
  | append_singleton blocks b ih =>
      obtain ⟨hcursor, hholds⟩ := ih
      obtain ⟨hsame, hbuckets⟩ := updateEma_eq (recordBlocks blocks) b.timestamp b.txs
      rw [recordBlocks, List.foldl_append, ← recordBlocks, List.foldl_cons, List.foldl_nil,
        recordBlock]
      simp only [hsame, hbuckets]
      refine ⟨?_, ?_⟩
      · rw [hcursor, List.length_append, List.length_singleton, metricsBuckets]
        omega
      · have hslot : (slot (recordBlocks blocks).bucketCursor).val =
            blocks.length % metricsBuckets := by
          rw [val_slot, hcursor, Nat.mod_mod]
        have hwritten := hholds.write b (Nat.mod_lt blocks.length (by decide))
        simp only [hslot]
        exact hwritten

-- walking back from the cursor meets the recorded blocks, the newest first
theorem windowLoop_eq {blocks : List MetricsBucket} {buckets : Vector MetricsBucket metricsBuckets}
    (holds : Ring.Holds blocks .empty buckets) (dated : ∀ b ∈ blocks, 0 < b.timestamp)
    (remaining cursor : Nat) (summary : MetricsWindowSummary) {k : Nat} (hk : k ≤ blocks.length)
    (hcursor : cursor % metricsBuckets = k % metricsBuckets)
    (hroom : blocks.length + remaining ≤ k + metricsBuckets) :
    windowLoop buckets remaining cursor summary =
      ((blocks.take k).reverse.take remaining).foldl .add summary := by
  induction remaining generalizing cursor summary k with
  | zero => rfl
  | succ remaining ih =>
      have hback : wrappingSub cursor 1 % metricsBuckets = (k + 255) % metricsBuckets := by
        rw [wrappingSub, metricsBuckets] at *
        omega
      rw [windowLoop]
      cases k with
      | zero =>
          have hblank : bucketAt buckets (wrappingSub cursor 1) = .empty := by
            apply holds.blank
            rw [val_slot, hback]
            rw [metricsBuckets] at *
            omega
          rw [hblank, if_pos ⟨rfl, rfl⟩]
          rfl
      | succ k =>
          have hlast : (k + 1 + 255) % metricsBuckets = k % metricsBuckets := by
            rw [metricsBuckets]
            omega
          have hread : bucketAt buckets (wrappingSub cursor 1) = blocks[k] := by
            apply holds.recent k hk (by omega)
            rw [val_slot, hback, hlast]
          have hpos := dated blocks[k] (List.getElem_mem hk)
          rw [hread, if_neg (by omega), ih _ _ (by omega) (hback.trans hlast) (by omega),
            List.take_succ_eq_append_getElem hk, List.reverse_append, List.reverse_singleton,
            List.singleton_append, List.take_succ_cons, List.foldl_cons]

def coveredBlocks (blocks : List MetricsBucket) (window : Nat) : List MetricsBucket :=
  blocks.drop (blocks.length - min window (min blocks.length metricsBuckets))

theorem length_coveredBlocks (blocks : List MetricsBucket) (window : Nat) :
    (coveredBlocks blocks window).length = min window (min blocks.length metricsBuckets) := by
  rw [coveredBlocks, List.length_drop]
  omega

theorem windowSummary_eq {blocks : List MetricsBucket} (dated : ∀ b ∈ blocks, 0 < b.timestamp)
    (window : Nat) :
    (recordBlocks blocks).windowSummary window =
      (coveredBlocks blocks window).reverse.foldl .add .empty := by
  obtain ⟨hcursor, holds⟩ := holds_recordBlocks blocks
  have hread : (blocks.take blocks.length).reverse.take (min window metricsBuckets) =
      (coveredBlocks blocks window).reverse := by
    rw [List.take_length, List.take_reverse, coveredBlocks]
    congr 2
    omega
  rw [windowSummary]
  dsimp only
  split_ifs with hzero hstart
  · rw [← hread, hzero]
    rfl
  · rw [windowLoop_eq holds dated _ _ _ le_rfl (by rw [← hcursor, hstart, Nat.mod_self])
      (by omega), hread]
  · rw [windowLoop_eq holds dated _ _ _ le_rfl (by rw [hcursor, Nat.mod_mod]) (by omega), hread]

end MetricsStateV1

namespace MetricsWindowSummary

theorem blocks_foldl (visited : List MetricsBucket) (summary : MetricsWindowSummary)
    (h : summary.blocks ≤ u64Max) :
    (visited.foldl .add summary).blocks = saturatingAdd u64Max summary.blocks visited.length := by
  induction visited generalizing summary with
  | nil => simp [saturatingAdd, h]
  | cons b visited ih =>
      rw [List.foldl_cons, ih _ (min_le_right _ _), List.length_cons]
      simp only [add, saturatingAdd]
      omega

theorem txs_foldl (visited : List MetricsBucket) (summary : MetricsWindowSummary)
    (h : summary.txs ≤ u64Max) :
    (visited.foldl .add summary).txs =
      saturatingAdd u64Max summary.txs (visited.map MetricsBucket.txs).sum := by
  induction visited generalizing summary with
  | nil => simp [saturatingAdd, h]
  | cons b visited ih =>
      rw [List.foldl_cons, ih _ (min_le_right _ _), List.map_cons, List.sum_cons]
      simp only [add, saturatingAdd]
      omega

theorem drops_foldl (visited : List MetricsBucket) (summary : MetricsWindowSummary)
    (h : summary.drops ≤ u64Max) :
    (visited.foldl .add summary).drops =
      saturatingAdd u64Max summary.drops (visited.map MetricsBucket.drops).sum := by
  induction visited generalizing summary with
  | nil => simp [saturatingAdd, h]
  | cons b visited ih =>
      rw [List.foldl_cons, ih _ (min_le_right _ _), List.map_cons, List.sum_cons]
      simp only [add, saturatingAdd]
      omega

theorem firstTs_foldl (visited : List MetricsBucket) (summary : MetricsWindowSummary)
    (h : summary.firstTs ≠ 0) : (visited.foldl .add summary).firstTs = summary.firstTs := by
  induction visited generalizing summary with
  | nil => rfl
  | cons b visited ih =>
      have hkept : (summary.add b).firstTs = summary.firstTs := if_neg h
      rw [List.foldl_cons, ih _ (hkept ▸ h), hkept]

end MetricsWindowSummary

open MetricsWindowSummary MetricsStateV1

-- the walk goes back in time: it starts at the newest block and ends at the oldest
structure WalksBack (covered : List MetricsBucket) (summary : MetricsWindowSummary) : Prop where
  blocks : summary.blocks = covered.length
  txs : summary.txs = saturatingAdd u64Max 0 (covered.map MetricsBucket.txs).sum
  drops : summary.drops = saturatingAdd u64Max 0 (covered.map MetricsBucket.drops).sum
  firstTs : ∀ newest ∈ covered.getLast?, summary.firstTs = newest.timestamp
  lastTs : ∀ oldest ∈ covered.head?, summary.lastTs = oldest.timestamp

theorem walksBack_foldl {covered : List MetricsBucket} (dated : ∀ b ∈ covered, 0 < b.timestamp)
    (hsmall : covered.length ≤ u64Max) : WalksBack covered (covered.reverse.foldl .add .empty) where
  blocks := by
    rw [blocks_foldl _ _ (Nat.zero_le _), List.length_reverse, saturatingAdd,
      show empty.blocks = 0 from rfl]
    omega
  txs := by
    rw [txs_foldl _ _ (Nat.zero_le _), List.map_reverse, List.sum_reverse]
    rfl
  drops := by
    rw [drops_foldl _ _ (Nat.zero_le _), List.map_reverse, List.sum_reverse]
    rfl
  firstTs := by
    intro newest hnewest
    obtain ⟨older, rfl⟩ := List.getLast?_eq_some_iff.mp hnewest
    have hpos := dated newest (by simp)
    rw [List.reverse_append, List.reverse_singleton, List.singleton_append, List.foldl_cons,
      firstTs_foldl _ _ (Nat.ne_of_gt hpos)]
    rfl
  lastTs := by
    intro oldest holdest
    obtain ⟨newer, rfl⟩ := List.head?_eq_some_iff.mp holdest
    rw [List.reverse_cons, List.foldl_append]
    rfl

theorem walksBack_windowSummary {blocks : List MetricsBucket}
    (dated : ∀ b ∈ blocks, 0 < b.timestamp) (window : Nat) :
    WalksBack (coveredBlocks blocks window) ((recordBlocks blocks).windowSummary window) := by
  have hlength := length_coveredBlocks blocks window
  have hsmall : metricsBuckets ≤ u64Max := by decide
  rw [windowSummary_eq dated]
  exact walksBack_foldl (fun b hb => dated b (List.mem_of_mem_drop hb)) (by omega)

structure Summarizes (covered : List MetricsBucket) (summary : MetricsWindowSummary) : Prop where
  blocks : summary.blocks = covered.length
  txs : summary.txs = (covered.map MetricsBucket.txs).sum
  drops : summary.drops = (covered.map MetricsBucket.drops).sum
  firstTs : ∀ oldest ∈ covered.head?, summary.firstTs = oldest.timestamp
  lastTs : ∀ newest ∈ covered.getLast?, summary.lastTs = newest.timestamp
  rate : 2 ≤ covered.length → ∀ oldest ∈ covered.head?, ∀ newest ∈ covered.getLast?,
    summary.blockRatePerSecX1000 =
      some ((covered.length - 1) * 1000 / (newest.timestamp - oldest.timestamp))

theorem ends_of_two {covered : List MetricsBucket} (h : 2 ≤ covered.length)
    (increasing : covered.Pairwise (fun a b => a.timestamp < b.timestamp)) :
    ∃ oldest newest, covered.head? = some oldest ∧ covered.getLast? = some newest ∧
      oldest.timestamp < newest.timestamp := by
  match covered, h with
  | oldest :: second :: rest, _ =>
      have hlast := List.getLast?_eq_some_getLast (List.cons_ne_nil second rest)
      refine ⟨oldest, (second :: rest).getLast (List.cons_ne_nil second rest), rfl, ?_, ?_⟩
      · rw [List.getLast?_cons_cons, hlast]
      · exact (List.pairwise_cons.mp increasing).1 _ (List.getLast_mem _)

namespace WalksBack

variable {covered : List MetricsBucket} {summary : MetricsWindowSummary}

theorem reversed (walk : WalksBack covered summary) (h : 2 ≤ covered.length)
    (increasing : covered.Pairwise (fun a b => a.timestamp < b.timestamp)) :
    ¬ Summarizes covered summary ∧ summary.blockRatePerSecX1000 = none := by
  obtain ⟨oldest, newest, hhead, hlast, hlt⟩ := ends_of_two h increasing
  have hfirst := walk.firstTs newest hlast
  have hend := walk.lastTs oldest hhead
  refine ⟨?_, ?_⟩
  · intro right
    have := right.firstTs oldest hhead
    omega
  · have hdelta : summary.lastTs - summary.firstTs = 0 := by omega
    rw [blockRatePerSecX1000, hdelta]
    split_ifs
    · rfl
    · rfl

theorem summarizes (walk : WalksBack covered summary) (h : covered.length < 2)
    (words : ∀ b ∈ covered, b.txs ≤ u64Max ∧ b.drops ≤ u64Max) : Summarizes covered summary := by
  match covered, h with
  | [], _ =>
      exact ⟨walk.blocks, walk.txs, walk.drops, fun _ h => absurd h (by simp),
        fun _ h => absurd h (by simp), fun h => absurd h (by simp)⟩
  | [b], _ =>
      obtain ⟨htxs, hdrops⟩ := words b (List.mem_singleton_self b)
      refine ⟨walk.blocks, ?_, ?_, walk.firstTs, walk.lastTs, fun h => absurd h (by simp)⟩
      · rw [walk.txs, List.map_singleton, List.sum_singleton, saturatingAdd]
        omega
      · rw [walk.drops, List.map_singleton, List.sum_singleton, saturatingAdd]
        omega

end WalksBack

theorem summarizes_iff {blocks : List MetricsBucket} (dated : ∀ b ∈ blocks, 0 < b.timestamp)
    (increasing : blocks.Pairwise (fun a b => a.timestamp < b.timestamp))
    (words : ∀ b ∈ blocks, b.txs ≤ u64Max ∧ b.drops ≤ u64Max) {window : Nat} (hwindow : 2 ≤ window) :
    (Summarizes (coveredBlocks blocks window) ((recordBlocks blocks).windowSummary window) ↔
      blocks.length < 2) ∧
    (2 ≤ blocks.length →
      ((recordBlocks blocks).windowSummary window).blockRatePerSecX1000 = none) := by
  have hlength := length_coveredBlocks blocks window
  have hcap : metricsBuckets = 256 := rfl
  have walk := walksBack_windowSummary dated window
  have hinc : (coveredBlocks blocks window).Pairwise (fun a b => a.timestamp < b.timestamp) :=
    increasing.sublist (List.drop_sublist ..)
  refine ⟨⟨fun right => ?_, fun hfew => ?_⟩, fun h => (walk.reversed (by omega) hinc).2⟩
  · by_contra hmany
    exact (walk.reversed (by omega) hinc).1 right
  · exact walk.summarizes (by omega) (fun b hb => words b (List.mem_of_mem_drop hb))

theorem summarizes_iff_twoBlocks :
    (Summarizes (coveredBlocks [⟨1, 10, 5, 0⟩, ⟨2, 15, 1, 0⟩] 2)
      ((recordBlocks [⟨1, 10, 5, 0⟩, ⟨2, 15, 1, 0⟩]).windowSummary 2) ↔
        ([⟨1, 10, 5, 0⟩, ⟨2, 15, 1, 0⟩] : List MetricsBucket).length < 2) ∧
    (2 ≤ ([⟨1, 10, 5, 0⟩, ⟨2, 15, 1, 0⟩] : List MetricsBucket).length →
      ((recordBlocks [⟨1, 10, 5, 0⟩, ⟨2, 15, 1, 0⟩]).windowSummary 2).blockRatePerSecX1000 =
        none) :=
  summarizes_iff (by decide) (by decide) (by decide) le_rfl

theorem twoBlocks_not_summarized :
    ¬ ∀ (blocks : List MetricsBucket) (window : Nat), (∀ b ∈ blocks, 0 < b.timestamp) →
      blocks.Pairwise (fun a b => a.timestamp < b.timestamp) →
      (∀ b ∈ blocks, b.txs ≤ u64Max ∧ b.drops ≤ u64Max) → 2 ≤ window →
      Summarizes (coveredBlocks blocks window) ((recordBlocks blocks).windowSummary window) := by
  intro h
  have hdated : ∀ b ∈ ([⟨1, 10, 5, 0⟩, ⟨2, 15, 1, 0⟩] : List MetricsBucket), 0 < b.timestamp := by
    decide
  have right := h [⟨1, 10, 5, 0⟩, ⟨2, 15, 1, 0⟩] 2 hdated (by decide) (by decide) le_rfl
  have walk := walksBack_windowSummary hdated 2
  have hsame := (right.firstTs ⟨1, 10, 5, 0⟩ rfl).symm.trans (walk.firstTs ⟨2, 15, 1, 0⟩ rfl)
  exact absurd hsame (by decide)

end Kasane.Chain
