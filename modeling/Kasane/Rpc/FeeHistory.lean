import Kasane.Chain.TxCodec
import Kasane.Node.Runs

namespace Kasane.Rpc

open BigEndian Codec Word Chain Exec Node

def rpcErrInvalidParams : Nat := 1001

def rpcErrExecutionFailed : Nat := 2001

def maxFeeHistoryBlocks : Nat := 256

def maxFeeHistoryPercentiles : Nat := 128

def eip1559BaseFeeMaxChangeDenom : Nat := 8

def eip1559ElasticityMultiplier : Nat := 2

structure RpcErrorView where
  code : Nat
  message : String
  errorPrefix : Option String
deriving DecidableEq, Repr

def invalidError (errorPrefix message : String) : RpcErrorView :=
  ⟨rpcErrInvalidParams, message, some errorPrefix⟩

def executionError (errorPrefix message : String) : RpcErrorView :=
  ⟨rpcErrExecutionFailed, message, some errorPrefix⟩

inductive RpcBlockTag where
  | latest
  | pending
  | safe
  | finalized
  | earliest
  | number (number : Nat)
deriving DecidableEq, Repr

structure RpcHistoryWindow where
  oldestAvailable : Nat
  latest : Nat
deriving DecidableEq, Repr

def outOfWindowError (requested : Nat) (window : RpcHistoryWindow) : RpcErrorView :=
  invalidError "invalid.block_range.out_of_window"
    ("invalid.block_range.out_of_window requested=" ++ toString requested ++ " oldest_available=" ++
      toString window.oldestAvailable ++ " latest=" ++ toString window.latest)

structure FeeTipSample where
  tip : Nat
  gasUsed : Nat
deriving DecidableEq, Repr

structure FeeHistorySample where
  number : Nat
  baseFeePerGas : Nat
  gasUsed : Nat
  gasLimit : Nat
  txTips : List FeeTipSample
deriving DecidableEq, Repr

structure RpcFeeHistory (F : Type) where
  oldestBlock : Nat
  baseFeePerGas : List Nat
  gasUsedRatio : List F
  reward : Option (List (List Nat))

-- the f64 operations that the percentiles and the gas ratio go through
structure Floats (F : Type) where
  isFinite : F → Bool
  lt : F → F → Bool
  le : F → F → Bool
  zero : F
  hundred : F
  minusOne : F
  div : Nat → Nat → F
  millionths : F → Nat

def computeNextBaseFee (baseFee gasUsed gasLimit : Nat) : Nat :=
  if gasLimit = 0 then baseFee
  else
    let targetGas := gasLimit / eip1559ElasticityMultiplier
    if targetGas = 0 then baseFee
    else if gasUsed = targetGas then baseFee
    else if gasUsed > targetGas then
      let baseDelta := saturatingMul u128Max baseFee (gasUsed - targetGas) / targetGas /
        eip1559BaseFeeMaxChangeDenom
      min (saturatingAdd u128Max baseFee (max baseDelta 1)) u64Max
    else
      let baseDelta := saturatingMul u128Max baseFee (targetGas - gasUsed) / targetGas /
        eip1559BaseFeeMaxChangeDenom
      min (baseFee - baseDelta) u64Max

-- compute_next_base_fee with every operator that can trap evaluated as such
def computeNextBaseFeeChecked (baseFee gasUsed gasLimit : Nat) : Option Nat :=
  if gasLimit = 0 then some baseFee
  else do
    let targetGas ← checkedDiv gasLimit eip1559ElasticityMultiplier
    if targetGas = 0 then some baseFee
    else if gasUsed = targetGas then some baseFee
    else if gasUsed > targetGas then do
      let gasDelta ← checkedSub gasUsed targetGas
      let scaled ← checkedDiv (saturatingMul u128Max baseFee gasDelta) targetGas
      let baseDelta ← checkedDiv scaled eip1559BaseFeeMaxChangeDenom
      some (min (saturatingAdd u128Max baseFee (max baseDelta 1)) u64Max)
    else do
      let gasDelta ← checkedSub targetGas gasUsed
      let scaled ← checkedDiv (saturatingMul u128Max baseFee gasDelta) targetGas
      let baseDelta ← checkedDiv scaled eip1559BaseFeeMaxChangeDenom
      some (min (baseFee - baseDelta) u64Max)

variable {W : Type} (c : Crypto)

def rpcEthHistoryWindow (s : StableState W) : RpcHistoryWindow where
  oldestAvailable := (s.pruneState.prunedBefore.map (fun v => saturatingAdd u64Max v 1)).getD 0
  latest := s.head.number

def resolveNewestNumber (s : StableState W) (tag : RpcBlockTag) : Except RpcErrorView Nat :=
  let window := rpcEthHistoryWindow s
  match tag with
  | .latest | .pending | .safe | .finalized => .ok window.latest
  | .earliest => if window.oldestAvailable > 0 then .error (outOfWindowError 0 window) else .ok 0
  | .number number =>
      if number < window.oldestAvailable ∨ number > window.latest then
        .error (outOfWindowError number window)
      else .ok number

structure DecodedFees where
  gasLimit : Nat
  gasPrice : Option Nat
  maxFeePerGas : Option Nat
  maxPriorityFeePerGas : Option Nat
deriving DecidableEq, Repr

def decodeFees (kind : TxKind) (raw : Bytes) : Option DecodedFees :=
  match kind with
  | .icSynthetic =>
      (decodeIcSyntheticHeader raw).map (fun header =>
        ⟨header.gasLimit.toNat, none, some header.maxFeePerGas.toNat,
          some header.maxPriorityFeePerGas.toNat⟩)
  | .ethSigned =>
      match raw with
      | [] => none
      | first :: _ =>
          if raw.length > maxTxSize then none
          else if rejectedTxType first then none
          else (c.recoverEthTx raw).map (fun tx =>
            ⟨tx.gasLimit, tx.gasPrice, tx.maxFeePerGas, tx.maxPriorityFeePerGas⟩)

def loadReceipt (s : StableState W) (id : TxId) : Option Receipt.ReceiptLike :=
  match s.receipts.get id with
  | none => none
  | some ptr =>
      match s.blobStore.read ptr with
      | .error _ => none
      | .ok bytes =>
          let receipt := Receipt.fromBytes bytes
          if receipt.txId ≠ id ∨ receipt.txId = zeroArr 32 then none else some receipt

def effectivePriorityFee (decoded : DecodedFees) (baseFee : Nat) : Nat :=
  match decoded.maxFeePerGas with
  | some maxFee =>
      match decoded.maxPriorityFeePerGas with
      | some maxPriority => min maxPriority (maxFee - baseFee)
      | none => maxFee - baseFee
  | none => (decoded.gasPrice.map (fun price => price - baseFee)).getD 0

def loadTxTipSample (s : StableState W) (id : TxId) (baseFee : Nat) : Option FeeTipSample := do
  let envelope ← (s.txStore.get id).filter (fun envelope => !envelope.isInvalid)
  let stored ← (StoredTx.tryFrom c envelope).toOption
  let decoded ← decodeFees c stored.kind stored.raw
  let gasUsed := ((loadReceipt s id).map (fun r => r.gasUsed.toNat)).getD decoded.gasLimit
  if gasUsed = 0 then none else some ⟨effectivePriorityFee decoded baseFee, gasUsed⟩

def loadFeeHistorySample (s : StableState W) (number : Nat) : Option FeeHistorySample :=
  (loadBlock s number).map (fun block =>
    { number := block.number.toNat
      baseFeePerGas := block.baseFeePerGas.toNat
      gasUsed := block.gasUsed.toNat
      gasLimit := block.blockGasLimit.toNat
      txTips := block.txIds.filterMap (fun id =>
        loadTxTipSample c s id block.baseFeePerGas.toNat) })

def loadFeeHistorySamples (s : StableState W) (newest : Nat) : List Nat → List FeeHistorySample
  | [] => []
  | offset :: rest =>
      match loadFeeHistorySample c s (newest - offset) with
      | none => []
      | some sample =>
          if newest - offset = 0 then [sample]
          else sample :: loadFeeHistorySamples s newest rest

variable {F : Type} (floats : Floats F)

def increasing (prev : F) : List F → Except RpcErrorView Unit
  | [] => .ok ()
  | value :: rest =>
      if floats.isFinite value = false ∨ floats.lt value floats.zero ∨
          floats.lt floats.hundred value then
        .error (invalidError "invalid.fee_history.percentiles"
          "invalid.fee_history.percentiles percentile must be within [0,100]")
      else if floats.lt value prev then
        .error (invalidError "invalid.fee_history.percentiles"
          "invalid.fee_history.percentiles percentiles must be monotonically increasing")
      else increasing value rest

def validateRewardPercentiles : Option (List F) → Except RpcErrorView (Option (List F))
  | none => .ok none
  | some percentiles =>
      if percentiles.length > maxFeeHistoryPercentiles then
        .error (invalidError "invalid.fee_history.percentiles"
          "invalid.fee_history.percentiles too many values (max 128)")
      else (increasing floats floats.minusOne percentiles).map (fun _ => some percentiles)

def percentileToThreshold (totalWeight : Nat) (percentile : F) : Nat :=
  if floats.le percentile floats.zero then 1
  else if floats.le floats.hundred percentile then totalWeight
  else
    let numerator := saturatingMul u128Max totalWeight (floats.millionths percentile)
    max (saturatingAdd u128Max numerator (100_000_000 - 1) / 100_000_000) 1

def tipAt (threshold : Nat) : Nat → List FeeTipSample → Nat
  | _, [] => 0
  | cumulative, item :: rest =>
      let cumulative := saturatingAdd u128Max cumulative item.gasUsed
      if cumulative ≥ threshold then item.tip else tipAt threshold cumulative rest

def computeWeightedPercentile (items : List FeeTipSample) (percentile : F) : Nat :=
  let sorted := items.mergeSort (fun a b => decide (a.tip < b.tip ∨ (a.tip = b.tip ∧
    a.gasUsed ≤ b.gasUsed)))
  let totalWeight := sorted.foldl (fun acc item => saturatingAdd u128Max acc item.gasUsed) 0
  if totalWeight = 0 then 0
  else tipAt (percentileToThreshold floats totalWeight percentile) 0 sorted

def feeHistoryOf (samples : List FeeHistorySample) (percentiles : Option (List F)) :
    Except RpcErrorView (RpcFeeHistory F) :=
  let samples := samples.mergeSort (fun a b => decide (a.number ≤ b.number))
  match samples, samples.getLast? with
  | first :: _, some last =>
      .ok
        { oldestBlock := first.number
          baseFeePerGas := samples.map FeeHistorySample.baseFeePerGas ++
            [computeNextBaseFee last.baseFeePerGas last.gasUsed last.gasLimit]
          gasUsedRatio := samples.map (fun item =>
            if item.gasLimit = 0 then floats.zero else floats.div item.gasUsed item.gasLimit)
          reward := percentiles.map (fun ps => samples.map (fun item =>
            ps.map (computeWeightedPercentile floats item.txTips))) }
  | _, _ =>
      .error (executionError "exec.state.unavailable"
        "exec.state.unavailable fee history is unavailable")

def rpcEthFeeHistory (s : StableState W) (blockCount : Nat) (newest : RpcBlockTag)
    (rewardPercentiles : Option (List F)) : Except RpcErrorView (RpcFeeHistory F) :=
  if blockCount = 0 ∨ blockCount > maxFeeHistoryBlocks then
    .error (invalidError "invalid.fee_history.block_count"
      "invalid.fee_history.block_count block_count must be within [1, 256]")
  else do
    let percentiles ← validateRewardPercentiles floats rewardPercentiles
    let newestNumber ← resolveNewestNumber s newest
    feeHistoryOf floats (loadFeeHistorySamples c s newestNumber (List.range blockCount)) percentiles

variable {c floats}

theorem saturatingMul_of_u64 {a b : Nat} (ha : a ≤ u64Max) (hb : b ≤ u64Max) :
    saturatingMul u128Max a b = a * b := by
  have hprod : a * b ≤ u64Max * u64Max := Nat.mul_le_mul ha hb
  exact min_eq_left (hprod.trans (by decide))

theorem computeNextBaseFee_agrees {baseFee gasUsed gasLimit : Nat} (hbase : baseFee ≤ u64Max)
    (hused : gasUsed ≤ u64Max) (hlimit : gasLimit ≤ u64Max) :
    computeNextBaseFee baseFee gasUsed gasLimit =
      Chain.computeNextBaseFee baseFee gasUsed gasLimit := by
  simp only [computeNextBaseFee, Chain.computeNextBaseFee, eip1559ElasticityMultiplier,
    eip1559BaseFeeMaxChangeDenom]
  by_cases hzero : gasLimit = 0
  · simp only [hzero, Nat.zero_div, if_true]
  · have hover := saturatingMul_of_u64 (b := gasUsed - gasLimit / 2) hbase (by omega)
    have hunder := saturatingMul_of_u64 (b := gasLimit / 2 - gasUsed) hbase (by omega)
    have hle (change : Nat) : baseFee - change ≤ u64Max := (Nat.sub_le ..).trans hbase
    rw [if_neg hzero, hover, hunder, min_eq_left (hle _), if_pos (hle _)]
    rfl

theorem computeNextBaseFee_checked {baseFee gasUsed gasLimit : Nat} :
    computeNextBaseFeeChecked baseFee gasUsed gasLimit =
      some (computeNextBaseFee baseFee gasUsed gasLimit) := by
  have htwo : checkedDiv gasLimit eip1559ElasticityMultiplier =
      some (gasLimit / eip1559ElasticityMultiplier) := checkedDiv_of_ne (by decide)
  have height (a : Nat) : checkedDiv a eip1559BaseFeeMaxChangeDenom =
      some (a / eip1559BaseFeeMaxChangeDenom) := checkedDiv_of_ne (by decide)
  simp only [computeNextBaseFeeChecked, computeNextBaseFee, htwo, Option.bind_eq_bind,
    Option.bind_some]
  generalize gasLimit / eip1559ElasticityMultiplier = target
  split_ifs with h₁ h₂ h₃ h₄
  · rfl
  · rfl
  · rfl
  · simp only [checkedSub_of_le (Nat.le_of_lt h₄), checkedDiv_of_ne h₂, height, Option.bind_some]
  · simp only [checkedSub_of_le (not_lt.mp h₄), checkedDiv_of_ne h₂, height, Option.bind_some]

theorem mem_loadFeeHistorySamples {s : StableState W} {newest : Nat} {offsets : List Nat}
    {sample : FeeHistorySample} (h : sample ∈ loadFeeHistorySamples c s newest offsets) :
    ∃ number, number ≤ newest ∧ loadFeeHistorySample c s number = some sample := by
  induction offsets with
  | nil => exact absurd h (by simp [loadFeeHistorySamples])
  | cons offset offsets ih =>
      rw [loadFeeHistorySamples] at h
      split at h
      · exact absurd h (by simp)
      · rename_i first hfirst
        split_ifs at h
        · obtain rfl := List.mem_singleton.mp h
          exact ⟨_, Nat.sub_le .., hfirst⟩
        · rcases List.mem_cons.mp h with rfl | h
          · exact ⟨_, Nat.sub_le .., hfirst⟩
          · exact ih h

theorem loadBlock_minted {s : StableState W} (h : Minted s) {number : Nat} {block : BlockData}
    (hload : loadBlock s number = some block) : block.Minted number := by
  rw [loadBlock] at hload
  split at hload
  · exact absurd hload (by simp)
  · rename_i ptr hget
    split at hload
    · exact absurd hload (by simp)
    · rename_i bytes hread
      obtain ⟨stored, hstored, rfl⟩ := h number ptr bytes hget hread
      rw [BlockData.fromBytes_toBytes hstored.2.2] at hload
      dsimp only at hload
      split_ifs at hload
      obtain rfl := Option.some.inj hload
      exact hstored

theorem number_loadFeeHistorySample {s : StableState W} (h : Minted s) {number : Nat}
    {sample : FeeHistorySample} (hsample : loadFeeHistorySample c s number = some sample) :
    sample.number = number := by
  obtain ⟨block, hload, rfl⟩ := Option.map_eq_some_iff.mp hsample
  exact (loadBlock_minted h hload).1

theorem last_mergeSort_number {samples : List FeeHistorySample} {newest : FeeHistorySample}
    (hmem : newest ∈ samples)
    (hmax : ∀ sample ∈ samples, sample.number < newest.number ∨ sample = newest) :
    (samples.mergeSort (fun a b => decide (a.number ≤ b.number))).getLast? = some newest := by
  have hsorted : (samples.mergeSort (fun a b => decide (a.number ≤ b.number))).Pairwise
      (fun a b => a.number ≤ b.number) := by
    have hpair := @List.pairwise_mergeSort FeeHistorySample (fun a b =>
      decide (a.number ≤ b.number)) (fun a b d hab hbd => by simp at hab hbd ⊢; omega)
      (fun a b => by simp; omega) samples
    exact hpair.imp of_decide_eq_true
  have hperm := List.mergeSort_perm samples (fun a b => decide (a.number ≤ b.number))
  generalize samples.mergeSort (fun a b => decide (a.number ≤ b.number)) = sorted at hsorted hperm
  rcases sorted.eq_nil_or_concat' with rfl | ⟨front, last, rfl⟩
  · exact absurd (hperm.mem_iff.mpr hmem) (by simp)
  · rw [List.getLast?_concat]
    have hlast : last ∈ samples := hperm.mem_iff.mp (by simp)
    rcases hmax last hlast with hlt | rfl
    · have hfound := hperm.mem_iff.mpr hmem
      rw [List.mem_append, List.mem_singleton] at hfound
      rcases hfound with hfront | rfl
      · have hle := (List.pairwise_append.mp hsorted).2.2 newest hfront last (by simp)
        omega
      · rfl
    · rfl

theorem newest_loadFeeHistorySamples {s : StableState W} (h : Minted s) {newest count : Nat}
    (hcount : count ≠ 0) {samples : List FeeHistorySample}
    (hsamples : loadFeeHistorySamples c s newest (List.range count) = samples)
    (hsome : samples ≠ []) :
    ∃ sample, loadFeeHistorySample c s newest = some sample ∧
      (samples.mergeSort (fun a b => decide (a.number ≤ b.number))).getLast? = some sample := by
  obtain ⟨n, rfl⟩ := Nat.exists_eq_succ_of_ne_zero hcount
  have hall : ∀ sample ∈ samples, ∃ number, number ≤ newest ∧
      loadFeeHistorySample c s number = some sample := by
    intro sample hmem
    rw [← hsamples] at hmem
    exact mem_loadFeeHistorySamples hmem
  rw [List.range_succ_eq_map, loadFeeHistorySamples, Nat.sub_zero] at hsamples
  cases hfirst : loadFeeHistorySample c s newest with
  | none =>
      rw [hfirst] at hsamples
      exact absurd hsamples.symm hsome
  | some first =>
      rw [hfirst] at hsamples
      refine ⟨first, rfl, last_mergeSort_number ?_ ?_⟩
      · rw [← hsamples]
        dsimp only
        split_ifs <;> simp
      · intro sample hmem
        obtain ⟨number, hle, hload⟩ := hall sample hmem
        rw [number_loadFeeHistorySample h hload, number_loadFeeHistorySample h hfirst]
        rcases Nat.lt_or_eq_of_le hle with hlt | rfl
        · exact Or.inl hlt
        · exact Or.inr (Option.some.inj (hload.symm.trans hfirst))

theorem feeHistoryOf_ok {samples : List FeeHistorySample} {percentiles : Option (List F)}
    {view : RpcFeeHistory F} (h : feeHistoryOf floats samples percentiles = .ok view) :
    samples ≠ [] ∧ ∀ last, (samples.mergeSort (fun a b => decide (a.number ≤ b.number))).getLast? =
      some last → view.baseFeePerGas.getLast? =
        some (computeNextBaseFee last.baseFeePerGas last.gasUsed last.gasLimit) := by
  rw [feeHistoryOf] at h
  split at h
  · rename_i first rest last hsorted hlast
    obtain rfl := Except.ok.inj h
    refine ⟨?_, ?_⟩
    · rintro rfl
      exact absurd hsorted (by simp)
    · intro newest hnewest
      obtain rfl := Option.some.inj (hlast.symm.trans hnewest)
      exact List.getLast?_concat ..
  · exact absurd h (by simp)

theorem baseFee_produced {evm : Evm W} {env : CallEnv} {maxTxs : Nat} {s t : StableState W}
    {outcome : ProduceBlockOutcome}
    (produced : produceBlock c evm env maxTxs s = some (.ok outcome, t)) :
    outcome.block.baseFeePerGas = UInt64.ofNat s.chainState.baseFee := by
  cases produceBlock_cases produced with
  | committed hc =>
      rw [hc.block]
      rfl

theorem feeHistory_next {evm : Evm W} {env : CallEnv} {maxTxs : Nat} {s t : StableState W}
    {outcome : ProduceBlockOutcome} {blockCount : Nat} {newest : RpcBlockTag}
    {percentiles : Option (List F)} {view : RpcFeeHistory F} (h : Priced s)
    (hnewest : resolveNewestNumber s newest = .ok s.head.number)
    (hview : rpcEthFeeHistory c floats s blockCount newest percentiles = .ok view)
    (produced : produceBlock c evm env maxTxs s = some (.ok outcome, t)) :
    view.baseFeePerGas.getLast? = some outcome.block.baseFeePerGas.toNat := by
  rw [rpcEthFeeHistory] at hview
  split_ifs at hview with hcount
  obtain ⟨ps, -, hview⟩ := bind_eq_ok.mp hview
  obtain ⟨number, hnumber, hview⟩ := bind_eq_ok.mp hview
  obtain rfl := Except.ok.inj (hnewest.symm.trans hnumber)
  obtain ⟨hsome, hlast⟩ := feeHistoryOf_ok hview
  obtain ⟨sample, hsample, hsorted⟩ := newest_loadFeeHistorySamples h.stocked.minted
    (not_or.mp hcount).1 rfl hsome
  obtain ⟨block, hload, rfl⟩ := Option.map_eq_some_iff.mp hsample
  have hu64 (x : UInt64) : x.toNat ≤ u64Max := Nat.le_of_lt_succ x.toNat_lt
  have hfee : (UInt64.ofNat s.chainState.baseFee).toNat = s.chainState.baseFee :=
    UInt64.toNat_ofNat_of_lt (Nat.lt_succ_of_le h.baseFee)
  rw [hlast _ hsorted, baseFee_produced produced, hfee, h.head block hload,
    computeNextBaseFee_agrees (hu64 _) (hu64 _) (hu64 _)]

theorem fee_history_prices_next_block {T : Type} {revm : Revm} {trie : TrieCommit T}
    {allowed : NodeState T → NodeOp → Prop} {world : World T} {config : RuntimeConfig}
    {s : NodeState T} (run : NodeRun c revm trie allowed (.init world config) s) :
    (∀ (blockCount : Nat) (newest : RpcBlockTag) (percentiles : Option (List F))
      (view : RpcFeeHistory F) (env : CallEnv) (maxTxs : Nat) (outcome : ProduceBlockOutcome)
      (t : StableState (World T)),
      resolveNewestNumber s.chain newest = .ok s.chain.head.number →
      rpcEthFeeHistory c floats s.chain blockCount newest percentiles = .ok view →
      produceBlock c (evm c revm trie) env maxTxs s.chain = some (.ok outcome, t) →
      view.baseFeePerGas.getLast? = some outcome.block.baseFeePerGas.toNat) ∧
    ∀ baseFee gasUsed gasLimit : UInt64,
      computeNextBaseFee baseFee.toNat gasUsed.toNat gasLimit.toNat =
        Chain.computeNextBaseFee baseFee.toNat gasUsed.toNat gasLimit.toNat ∧
      computeNextBaseFeeChecked baseFee.toNat gasUsed.toNat gasLimit.toNat =
        some (computeNextBaseFee baseFee.toNat gasUsed.toNat gasLimit.toNat) ∧
      Chain.computeNextBaseFeeChecked baseFee.toNat gasUsed.toNat gasLimit.toNat =
        some (Chain.computeNextBaseFee baseFee.toNat gasUsed.toNat gasLimit.toNat) := by
  refine ⟨?_, ?_⟩
  · intro blockCount newest percentiles view env maxTxs outcome t hnewest hview produced
    exact feeHistory_next (priced_run run) hnewest hview produced
  · intro baseFee gasUsed gasLimit
    have hu64 (x : UInt64) : x.toNat ≤ u64Max := Nat.le_of_lt_succ x.toNat_lt
    exact ⟨computeNextBaseFee_agrees (hu64 _) (hu64 _) (hu64 _), computeNextBaseFee_checked,
      Chain.computeNextBaseFee_checked (hu64 _) (hu64 _) (hu64 _)⟩

def sampleFloats : Floats Nat where
  isFinite := fun _ => true
  lt := fun a b => decide (a < b)
  le := fun a b => decide (a ≤ b)
  zero := 0
  hundred := 100
  minusOne := 0
  div := fun a b => a / b
  millionths := fun a => a * 1_000_000

def nextBlock (revm : Revm) (s : StableState (World Unit)) : StableState (World Unit) :=
  ((produceBlock sampleCrypto (evm sampleCrypto revm sampleTrie) sampleEnv 1 s).map Prod.snd).getD s

theorem run_nextBlock {revm : Revm} {s : StableState (World Unit)}
    (run : ChainRun sampleCrypto (evm sampleCrypto revm sampleTrie) (fun _ _ => True)
      (.init emptyWorld) s) :
    ChainRun sampleCrypto (evm sampleCrypto revm sampleTrie) (fun _ _ => True) (.init emptyWorld)
      (nextBlock revm s) := by
  rw [nextBlock]
  cases h : produceBlock sampleCrypto (evm sampleCrypto revm sampleTrie) sampleEnv 1 s with
  | none => exact run
  | some result => exact run.step trivial (.produceBlock h)

def pricedChain : StableState (World Unit) :=
  submitBytes loggingRevm [5] (nextBlock loggingRevm (queueOf loggingRevm [[2]]))

theorem pricedChain_next_base_fee :
    ∃ s view outcome t,
      NodeRun sampleCrypto loggingRevm sampleTrie (fun _ _ => True)
        (.init emptyWorld ⟨false, .empty, zeroArr 20⟩) s ∧
      rpcEthFeeHistory sampleCrypto sampleFloats s.chain 4 .latest none = .ok view ∧
      produceBlock sampleCrypto (evm sampleCrypto loggingRevm sampleTrie) sampleEnv 1 s.chain =
        some (.ok outcome, t) ∧
      view.baseFeePerGas.length = 2 ∧
      view.baseFeePerGas.getLast? = some outcome.block.baseFeePerGas.toNat := by
  have hchain : ChainRun sampleCrypto (evm sampleCrypto loggingRevm sampleTrie) (fun _ _ => True)
      (.init emptyWorld) pricedChain :=
    (run_nextBlock (run_queueOf loggingRevm [[2]])).step trivial (.submitTx 0 [5] samplePrincipal _)
  obtain ⟨s, run, hs⟩ := @nodeRun_of_chainRun _ _ _ _ (fun _ _ => True) _ _
    ⟨false, .empty, zeroArr 20⟩ hchain (fun _ _ => trivial)
  have hview : ((rpcEthFeeHistory sampleCrypto sampleFloats pricedChain 4 .latest none).toOption.map
      (fun view => view.baseFeePerGas.length)) = some 2 := by decide +kernel
  obtain ⟨view, hview, hlength⟩ := Option.map_eq_some_iff.mp hview
  obtain ⟨outcome, t, hproduced, -⟩ := produced_of_check
    (r := produceBlock sampleCrypto (evm sampleCrypto loggingRevm sampleTrie) sampleEnv 1 pricedChain)
    (fun _ _ => true) (by decide +kernel)
  rw [← hs] at hproduced
  have hok : rpcEthFeeHistory sampleCrypto sampleFloats s.chain 4 .latest none = .ok view := by
    rw [hs]
    revert hview
    cases rpcEthFeeHistory sampleCrypto sampleFloats pricedChain 4 .latest none with
    | error e => exact fun h => absurd h (by simp [Except.toOption])
    | ok found => exact fun h => congrArg Except.ok (Option.some.inj h)
  exact ⟨s, view, outcome, t, run, hok, hproduced, hlength,
    (fee_history_prices_next_block run).1 4 .latest none view sampleEnv 1
      outcome t rfl hok hproduced⟩

end Kasane.Rpc
