import Kasane.Chain.Window
import Mathlib.Algebra.Order.BigOperators.Group.List

namespace Kasane.Chain

open BigEndian Codec Word Blob

def bpsDenominator : Nat := 10000

def minPruneMaxOpsPerTick : UInt32 := 1

def ratioBytes (target : UInt64) (ratioBps : UInt32) : UInt64 :=
  let bytes := target.toNat * ratioBps.toNat / bpsDenominator
  if bytes > u64Max then UInt64.ofNat u64Max else UInt64.ofNat bytes

def highWater (target : UInt64) (headroomBps : UInt32) : UInt64 :=
  if headroomBps = 0 then target
  else ratioBytes target (UInt32.ofNat (bpsDenominator - (headroomBps / 2).toNat))

def lowWater (target : UInt64) (headroomBps : UInt32) : UInt64 :=
  if headroomBps = 0 then target
  else ratioBytes target (UInt32.ofNat (bpsDenominator - headroomBps.toNat))

structure PrunePolicy where
  targetBytes : UInt64
  retainDays : UInt64
  retainBlocks : UInt64
  headroomRatioBps : UInt32
  hardEmergencyRatioBps : UInt32
  maxOpsPerTick : UInt32
deriving DecidableEq, Repr

structure PruneConfig where
  policy : PrunePolicy
  highWaterBytes : UInt64
  lowWaterBytes : UInt64
  hardEmergencyBytes : UInt64
deriving DecidableEq, Repr

def PruneConfig.new : PruneConfig := ⟨⟨0, 0, 0, 2000, 9500, 5000⟩, 0, 0, 0⟩

def PruneConfig.setPolicy (policy : PrunePolicy) : PruneConfig where
  policy := { policy with maxOpsPerTick := max policy.maxOpsPerTick minPruneMaxOpsPerTick }
  highWaterBytes := highWater policy.targetBytes policy.headroomRatioBps
  lowWaterBytes := lowWater policy.targetBytes policy.headroomRatioBps
  hardEmergencyBytes := ratioBytes policy.targetBytes policy.hardEmergencyRatioBps

def validatePrunePolicyInput (policy : PrunePolicy) : Except String Unit :=
  if policy.maxOpsPerTick < minPruneMaxOpsPerTick then
    .error "input.prune.max_ops_per_tick.non_positive"
  else .ok ()

def setPrunePolicy (policy : PrunePolicy) : Except String PruneConfig :=
  match validatePrunePolicyInput policy with
  | .error reason => .error reason
  | .ok () => .ok (PruneConfig.setPolicy policy)

def PruneConfig.maxOps (config : PruneConfig) : Nat := config.policy.maxOpsPerTick.toNat

theorem setPrunePolicy_ok_iff {policy : PrunePolicy} {config : PruneConfig} :
    setPrunePolicy policy = .ok config ↔
      1 ≤ policy.maxOpsPerTick.toNat ∧ config = PruneConfig.setPolicy policy := by
  rw [setPrunePolicy, validatePrunePolicyInput]
  have hlt : policy.maxOpsPerTick < minPruneMaxOpsPerTick ↔ policy.maxOpsPerTick.toNat < 1 :=
    UInt32.lt_iff_toNat_lt
  split_ifs with hpolicy
  · have hnot : ¬ 1 ≤ policy.maxOpsPerTick.toNat := not_le.mpr (hlt.mp hpolicy)
    simp [hnot]
  · have hpos : 1 ≤ policy.maxOpsPerTick.toNat := not_lt.mp (fun h => hpolicy (hlt.mpr h))
    simp [hpos, eq_comm]

theorem maxOpsPerTick_setPolicy {policy : PrunePolicy} (h : 1 ≤ policy.maxOpsPerTick.toNat) :
    (PruneConfig.setPolicy policy).maxOps = policy.maxOpsPerTick.toNat := by
  change (if policy.maxOpsPerTick ≤ minPruneMaxOpsPerTick then minPruneMaxOpsPerTick
    else policy.maxOpsPerTick).toNat = _
  split_ifs with hle
  · have hsmall : policy.maxOpsPerTick.toNat ≤ 1 := UInt32.le_iff_toNat_le.mp hle
    exact le_antisymm h hsmall
  · rfl

-- an accepted policy never asks for a refused prune
theorem maxOps_of_accepted {policy : PrunePolicy} {config : PruneConfig}
    (h : setPrunePolicy policy = .ok config) :
    config.maxOps = policy.maxOpsPerTick.toNat ∧ config.maxOps ≠ 0 ∧ config.maxOps < u64Max := by
  obtain ⟨hpos, rfl⟩ := setPrunePolicy_ok_iff.mp h
  have hops := maxOpsPerTick_setPolicy hpos
  have hbound := policy.maxOpsPerTick.toNat_lt
  rw [hops]
  refine ⟨rfl, by omega, hbound.trans (by decide)⟩

variable {W : Type} {c : Crypto}

def blockRecords (c : Crypto) (s : StableState W) (block : BlockData) : Nat :=
  1 + (block.txIds.map (pruneOpsNeededForTx c s)).sum

theorem presence_le (b : Bool) : presence b ≤ 1 := by
  cases b <;> decide

theorem pruneOpsNeededForTx_le (s : StableState W) (id : TxId) : pruneOpsNeededForTx c s id ≤ 9 := by
  have hsum {a b m n : Nat} (ha : a ≤ m) (hb : b ≤ n) : a + b ≤ m + n := Nat.add_le_add ha hb
  exact hsum (hsum (hsum (hsum (hsum (hsum (hsum (hsum (presence_le _) (presence_le _))
    (presence_le _)) (presence_le _)) (presence_le _)) (presence_le _)) (presence_le _))
    (presence_le _)) (presence_le _)

theorem blockRecords_le (s : StableState W) (block : BlockData) :
    blockRecords c s block ≤ 1 + 9 * block.txIds.length := by
  have hsum := List.sum_le_card_nsmul (block.txIds.map (pruneOpsNeededForTx c s)) 9 (by
    simp only [List.mem_map]
    rintro _ ⟨id, -, rfl⟩
    exact pruneOpsNeededForTx_le s id)
  rw [List.length_map, nsmul_eq_mul, Nat.cast_id] at hsum
  rw [blockRecords]
  omega

theorem foldl_saturatingAdd {α : Type} (f : α → Nat) (xs : List α) {max start : Nat}
    (h : start ≤ max) :
    xs.foldl (fun needed x => saturatingAdd max needed (f x)) start =
      min (start + (xs.map f).sum) max := by
  induction xs generalizing start with
  | nil => simp [h]
  | cons x xs ih =>
      rw [List.foldl_cons, saturatingAdd, ih (min_le_right _ _), List.map_cons, List.sum_cons]
      omega

theorem pruneOpsNeededForBlock_eq {s : StableState W} {n : Nat} {ptr : BlobPtr}
    (h : s.blocks.get n = some ptr) (block : BlockData) :
    pruneOpsNeededForBlock c s n block = min (blockRecords c s block) u64Max := by
  rw [pruneOpsNeededForBlock, h]
  exact foldl_saturatingAdd (pruneOpsNeededForTx c s) block.txIds (by decide : 1 ≤ u64Max)

-- the next block to prune fits in the budget of one call
def Affordable (c : Crypto) (maxOps : Nat) (s : StableState W) : Prop :=
  ∀ block, loadBlock s (nextBlock s.pruneState.prunedBefore) = some block →
    blockRecords c s block ≤ maxOps

-- a budget that covers a full block covers every block
theorem affordable_of_full {s : StableState W} {maxOps : Nat} (h : 1 + 9 * maxTxsPerBlock ≤ maxOps) :
    Affordable c maxOps s := by
  intro block hload
  have hlen := txIds_length_loadBlock hload
  have hrecords := blockRecords_le (c := c) s block
  have hnine : 9 * block.txIds.length ≤ 9 * maxTxsPerBlock := Nat.mul_le_mul_left 9 hlen
  omega

theorem blocks_of_load {s : StableState W} {n : Nat} {block : BlockData}
    (h : loadBlock s n = some block) : ∃ ptr, s.blocks.get n = some ptr := by
  cases hget : s.blocks.get n with
  | none => exact absurd (h.symm.trans (loadBlock_none_of_blocks hget)) (by simp)
  | some ptr => exact ⟨ptr, rfl⟩

theorem ops_le_iff {s : StableState W} {n maxOps : Nat} {block : BlockData}
    (h : loadBlock s n = some block) (hmax : maxOps < u64Max) :
    saturatingAdd u64Max 0 (pruneOpsNeededForBlock c s n block) ≤ maxOps ↔
      blockRecords c s block ≤ maxOps := by
  obtain ⟨ptr, hptr⟩ := blocks_of_load h
  rw [pruneOpsNeededForBlock_eq hptr, saturatingAdd]
  omega

theorem next_le_of_reach {pruneBefore maxOps : Nat} {start cur : PruneCursor} {s₀ s : StableState W}
    (hlt : pruneBefore < u64Max) (h : PruneReach c pruneBefore maxOps start s₀ cur s) :
    start.next ≤ cur.next := by
  have hsucc {n : Nat} (hn : n ≤ pruneBefore) : n ≤ saturatingAdd u64Max n 1 :=
    le_min (Nat.le_succ n) (hn.trans hlt.le)
  induction h with
  | here => exact le_refl _
  | skip _ hle _ ih => exact ih.trans (hsucc hle)
  | pruned _ hle _ _ _ _ ih => exact ih.trans (hsucc hle)

def pruneFrom (c : Crypto) (pruneBefore maxOps : Nat) (s : StableState W) :
    Except ChainError PruneCursor × StableState W :=
  pruneLoop c pruneBefore maxOps (pruneBefore + 1 - s.pruneState.nextPruneBlock)
    (startCursor s.pruneState) s

theorem Window.startCursor_eq {s : StableState W} (h : Window s) :
    startCursor s.pruneState = ⟨s.pruneState, s.pruneState.nextPruneBlock, false, 0⟩ := by
  have hnext : normalizeNextPruneBlock s.pruneState.nextPruneBlock s.pruneState.prunedBefore =
      s.pruneState.nextPruneBlock := by
    rw [h.next, normalize_nextBlock]
  rw [startCursor, hnext]

theorem Window.pruneBlocks_eq {s : StableState W} (h : Window s) {retain maxOps pruneBefore : Nat}
    (hmax : maxOps ≠ 0) (hbefore : pruneBeforeBlock s.head.number retain = some pruneBefore) :
    pruneBlocks c retain maxOps s =
      match pruneFrom c pruneBefore maxOps s with
      | (.error e, s) => (.error e, s)
      | (.ok cur, s) =>
          let (result, s) := finishPrune pruneBefore cur s
          (.ok result, s) := by
  have hretain : retain ≠ 0 := by
    rintro rfl
    exact absurd hbefore (by simp [pruneBeforeBlock])
  have hlimits : ¬ (retain = 0 ∨ maxOps = 0) := by simp [hretain, hmax]
  have hstart : (startCursor s.pruneState).next = s.pruneState.nextPruneBlock :=
    congrArg PruneCursor.next h.startCursor_eq
  rw [pruneBlocks, if_neg hlimits, h.recover]
  simp only [hbefore, hstart]
  rfl

-- the call starts with a block it cannot afford
theorem Window.stuck {s : StableState W} (h : Window s) {retain maxOps pruneBefore : Nat}
    (hmax : maxOps < u64Max) (hbefore : pruneBeforeBlock s.head.number retain = some pruneBefore)
    (hle : s.pruneState.nextPruneBlock ≤ pruneBefore) (hcost : ¬ Affordable c maxOps s) :
    ∃ oldest, (pruneBlocks c retain maxOps s).2 = { s with oldestBlock := oldest } := by
  rcases Nat.eq_zero_or_pos maxOps with rfl | hpos
  · refine ⟨s.oldestBlock, ?_⟩
    rw [pruneBlocks, if_pos (.inr rfl)]
  · simp only [Affordable, not_forall, not_le] at hcost
    obtain ⟨block, hload, hover⟩ := hcost
    rw [← h.next] at hload
    have hops := not_le.mpr hover
    rw [← ops_le_iff hload hmax, not_le] at hops
    have hfuel : pruneBefore + 1 - s.pruneState.nextPruneBlock =
        pruneBefore - s.pruneState.nextPruneBlock + 1 := by omega
    have hloop : pruneFrom c pruneBefore maxOps s = (.ok (startCursor s.pruneState), s) := by
      rw [pruneFrom, hfuel, h.startCursor_eq, pruneLoop, if_neg (not_lt.mpr hle), hload]
      exact if_pos hops
    obtain ⟨oldest, hold⟩ := refreshOldest_eq s
    refine ⟨oldest, ?_⟩
    rw [h.pruneBlocks_eq hpos.ne' hbefore, hloop, h.startCursor_eq]
    exact hold

theorem Window.affords {s : StableState W} (h : Window s) {retain maxOps pruneBefore : Nat}
    (hmax : maxOps < u64Max) (hpos : maxOps ≠ 0)
    (hbefore : pruneBeforeBlock s.head.number retain = some pruneBefore)
    (hle : s.pruneState.nextPruneBlock ≤ pruneBefore) (hcost : Affordable c maxOps s) :
    s.pruneState.nextPruneBlock <
      (pruneBlocks c retain maxOps s).2.pruneState.nextPruneBlock := by
  have hlt := pruneBeforeBlock_lt h.clean.head_le hbefore
  have hfuel : pruneBefore + 1 - s.pruneState.nextPruneBlock =
      pruneBefore - s.pruneState.nextPruneBlock + 1 := by omega
  have hlimits : ¬ (retain = 0 ∨ maxOps = 0) := by
    rintro (rfl | hzero)
    · exact absurd hbefore (by simp [pruneBeforeBlock])
    · exact hpos hzero
  obtain ⟨result, t, heq, -⟩ := h.prunes (c := c) hlimits
  have hwhole := h.pruneBlocks_eq (c := c) hpos hbefore
  rw [heq] at hwhole ⊢
  rcases hloop : pruneFrom c pruneBefore maxOps s with ⟨r, u⟩
  rw [hloop] at hwhole
  cases r with
  | error e => exact absurd (congrArg Prod.fst hwhole) (by simp)
  | ok cur =>
      -- whichever way the first round goes, the rest starts one block further
      have hfurther : saturatingAdd u64Max s.pruneState.nextPruneBlock 1 ≤ cur.next := by
        rw [pruneFrom, hfuel, h.startCursor_eq, pruneLoop, if_neg (not_lt.mpr hle)] at hloop
        dsimp only at hloop
        split at hloop
        · cases pruneLoop_end .here hloop with
          | stopped hreach => exact next_le_of_reach hlt hreach
        · rename_i block hload
          rw [h.next] at hload
          have hops := hcost block hload
          rw [← h.next] at hload
          rw [← ops_le_iff hload hmax] at hops
          rw [if_neg (not_lt.mpr hops)] at hloop
          split at hloop
          · exact absurd (congrArg Prod.fst hloop) (by simp)
          · cases pruneLoop_end .here hloop with
            | stopped hreach => exact next_le_of_reach hlt hreach
      have hnext : t.pruneState.nextPruneBlock = cur.next := by
        have hstate := congrArg (fun r => r.2.pruneState.nextPruneBlock) hwhole
        obtain ⟨oldest, hold⟩ := refreshOldest_eq
          { u with pruneState := { cur.pruneState with nextPruneBlock := cur.next } }
        exact hstate.trans (congrArg (fun s => s.pruneState.nextPruneBlock) hold)
      rw [hnext]
      have hsucc : saturatingAdd u64Max s.pruneState.nextPruneBlock 1 =
          s.pruneState.nextPruneBlock + 1 := min_eq_left (hle.trans_lt hlt)
      omega

-- the cursor has moved towards the head
def Forward (s t : StableState W) : Prop :=
  nextBlock s.pruneState.prunedBefore < nextBlock t.pruneState.prunedBefore

def pruneTicks (c : Crypto) (retain maxOps k : Nat) (s : StableState W) : StableState W :=
  (fun s => (pruneBlocks c retain maxOps s).2)^[k] s

theorem pruneTicks_succ (retain maxOps k : Nat) (s : StableState W) :
    pruneTicks c retain maxOps (k + 1) s =
      (pruneBlocks c retain maxOps (pruneTicks c retain maxOps k s)).2 :=
  Function.iterate_succ_apply' ..

theorem Window.forward_iff {s t : StableState W} (hs : Window s) (ht : Window t) :
    Forward s t ↔ s.pruneState.nextPruneBlock < t.pruneState.nextPruneBlock := by
  rw [Forward, hs.next, ht.next]

theorem Window.prune_head {s : StableState W} (h : Window s) (retain maxOps : Nat) :
    (pruneBlocks c retain maxOps s).2.head = s.head := by
  by_cases hlimits : retain = 0 ∨ maxOps = 0
  · rw [pruneBlocks, if_pos hlimits]
  · obtain ⟨result, t, heq, hprunes⟩ := h.prunes (c := c) hlimits
    rw [heq]
    exact congrArg UnprunedView.head hprunes.trimmed.unpruned

theorem Window.prune_le {s : StableState W} (h : Window s) (retain maxOps : Nat) :
    s.pruneState.nextPruneBlock ≤
      (pruneBlocks c retain maxOps s).2.pruneState.nextPruneBlock := by
  by_cases hlimits : retain = 0 ∨ maxOps = 0
  · rw [pruneBlocks, if_pos hlimits]
  · obtain ⟨result, t, heq, hprunes⟩ := h.prunes (c := c) hlimits
    rw [heq]
    exact hprunes.monotone

theorem Window.forward {s : StableState W} (h : Window s) {retain maxOps pruneBefore : Nat}
    (hmax : maxOps < u64Max) (hpos : maxOps ≠ 0)
    (hbefore : pruneBeforeBlock s.head.number retain = some pruneBefore)
    (hle : s.pruneState.nextPruneBlock ≤ pruneBefore) :
    Forward s (pruneBlocks c retain maxOps s).2 ↔ Affordable c maxOps s := by
  rw [h.forward_iff (window_pruneBlocks retain maxOps h)]
  constructor
  · intro hforward
    by_contra hcost
    obtain ⟨oldest, heq⟩ := h.stuck hmax hbefore hle hcost
    rw [heq] at hforward
    exact absurd hforward (lt_irrefl _)
  · exact h.affords hmax hpos hbefore hle

theorem Window.ticks {s : StableState W} (h : Window s) (retain maxOps k : Nat) :
    Window (pruneTicks c retain maxOps k s) ∧ (pruneTicks c retain maxOps k s).head = s.head := by
  induction k with
  | zero => exact ⟨h, rfl⟩
  | succ k ih =>
      obtain ⟨hwindow, hhead⟩ := ih
      rw [pruneTicks_succ]
      exact ⟨window_pruneBlocks retain maxOps hwindow, (hwindow.prune_head retain maxOps).trans hhead⟩

-- once a call cannot afford its first block, no later one can
theorem Window.stays_stuck {s : StableState W} (h : Window s) {retain maxOps pruneBefore : Nat}
    (hmax : maxOps < u64Max) (hbefore : pruneBeforeBlock s.head.number retain = some pruneBefore)
    (hle : s.pruneState.nextPruneBlock ≤ pruneBefore) (hcost : ¬ Affordable c maxOps s) (k : Nat) :
    ∃ oldest, pruneTicks c retain maxOps k s = { s with oldestBlock := oldest } := by
  induction k with
  | zero => exact ⟨s.oldestBlock, rfl⟩
  | succ k ih =>
      obtain ⟨oldest, heq⟩ := ih
      have hwindow : Window { s with oldestBlock := oldest } := by
        rw [← heq]
        exact (h.ticks retain maxOps k).1
      rw [pruneTicks_succ, heq]
      exact hwindow.stuck hmax hbefore hle hcost

theorem Window.monotone_ticks {s : StableState W} (h : Window s) {retain maxOps pruneBefore : Nat}
    (hmax : maxOps < u64Max) (hpos : maxOps ≠ 0)
    (hbefore : pruneBeforeBlock s.head.number retain = some pruneBefore)
    (hcost : ∀ k, (pruneTicks c retain maxOps k s).pruneState.nextPruneBlock ≤ pruneBefore →
      Affordable c maxOps (pruneTicks c retain maxOps k s)) (k : Nat) :
    min (s.pruneState.nextPruneBlock + k) (pruneBefore + 1) ≤
      (pruneTicks c retain maxOps k s).pruneState.nextPruneBlock := by
  induction k with
  | zero => exact min_le_left _ _
  | succ k ih =>
      obtain ⟨hwindow, hhead⟩ := h.ticks (c := c) retain maxOps k
      rw [← hhead] at hbefore
      rw [pruneTicks_succ]
      rcases Nat.lt_or_ge pruneBefore
        (pruneTicks c retain maxOps k s).pruneState.nextPruneBlock with hdone | hle
      · have hmono := hwindow.prune_le (c := c) retain maxOps
        omega
      · have hforward := hwindow.affords hmax hpos hbefore hle (hcost k hle)
        omega

theorem pruneTicks_add (retain maxOps j k : Nat) (s : StableState W) :
    pruneTicks c retain maxOps (j + k) s =
      pruneTicks c retain maxOps j (pruneTicks c retain maxOps k s) :=
  Function.iterate_add_apply ..

theorem Window.ticks_le {s : StableState W} (h : Window s) (retain maxOps j k : Nat) :
    (pruneTicks c retain maxOps k s).pruneState.nextPruneBlock ≤
      (pruneTicks c retain maxOps (j + k) s).pruneState.nextPruneBlock := by
  induction j with
  | zero => rw [Nat.zero_add]
  | succ j ih =>
      rw [Nat.succ_add, pruneTicks_succ]
      exact ih.trans ((h.ticks retain maxOps (j + k)).1.prune_le retain maxOps)

theorem Window.reaches_iff {s : StableState W} (h : Window s) {retain maxOps pruneBefore : Nat}
    (hmax : maxOps < u64Max) (hpos : maxOps ≠ 0)
    (hbefore : pruneBeforeBlock s.head.number retain = some pruneBefore) :
    (∃ k, pruneBefore < (pruneTicks c retain maxOps k s).pruneState.nextPruneBlock) ↔
      ∀ k, (pruneTicks c retain maxOps k s).pruneState.nextPruneBlock ≤ pruneBefore →
        Affordable c maxOps (pruneTicks c retain maxOps k s) := by
  constructor
  · rintro ⟨m, hm⟩ k hle
    by_contra hcost
    obtain ⟨hwindow, hhead⟩ := h.ticks (c := c) retain maxOps k
    rw [← hhead] at hbefore
    rcases Nat.le_total m k with hmk | hkm
    · obtain ⟨j, rfl⟩ := Nat.exists_eq_add_of_le' hmk
      exact absurd (hm.trans_le (h.ticks_le retain maxOps j m)) (not_lt.mpr hle)
    · obtain ⟨j, rfl⟩ := Nat.exists_eq_add_of_le' hkm
      obtain ⟨oldest, heq⟩ := hwindow.stays_stuck hmax hbefore hle hcost j
      rw [pruneTicks_add, heq] at hm
      exact absurd hm (not_lt.mpr hle)
  · intro hcost
    have hend := h.monotone_ticks hmax hpos hbefore hcost (pruneBefore + 1)
    exact ⟨pruneBefore + 1, by omega⟩

end Kasane.Chain
