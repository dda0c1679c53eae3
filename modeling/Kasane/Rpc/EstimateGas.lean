import Kasane.Rpc.CallObject

namespace Kasane.Rpc

open Word

inductive OpTransactionError where
  | txBuildFailed
  | txRejectedByPolicy
  | txPrecheckFailed
  | txExecutionFailed
deriving DecidableEq, Repr

inductive ExecFailure (ε : Type) where
  | txError (e : OpTransactionError)
  | other (e : ε)

inductive CallFailure (ε : Type) where
  | execFailed (e : Option (ExecFailure ε))
  | other (e : ε)

variable {ε : Type}

def isEstimateCandidateFailure : CallFailure ε → Bool
  | .execFailed (some (.txError .txPrecheckFailed)) => true
  | .execFailed (some (.txError .txExecutionFailed)) => true
  | _ => false

abbrev GasOracle (ε : Type) := CallObjectInput → Except (CallFailure ε) CallObjectResult

def ethCallObjectWithGasLimit (call : GasOracle ε) (input : CallObjectInput) (gasLimit : UInt64) :
    Except (CallFailure ε) CallObjectResult :=
  call { input with gasLimit := some gasLimit }

def midpoint (low high : UInt64) : UInt64 :=
  UInt64.ofNat (saturatingAdd u64Max low.toNat ((high.toNat - low.toNat) / 2))

theorem toNat_midpoint {low high : UInt64} (h : 1 < high.toNat - low.toNat) :
    (midpoint low high).toNat = low.toNat + (high.toNat - low.toNat) / 2 := by
  have hhigh := high.toNat_lt
  have hsum : saturatingAdd u64Max low.toNat ((high.toNat - low.toNat) / 2) =
      low.toNat + (high.toNat - low.toNat) / 2 := by
    rw [saturatingAdd, u64Max]
    omega
  rw [midpoint, hsum]
  exact UInt64.toNat_ofNat_of_lt' (Nat.lt_of_le_of_lt (by omega) hhigh)

-- `tried` is the record of the gas limits that were run so far
def estimateLoop (run : UInt64 → Except (CallFailure ε) CallObjectResult) (low high : UInt64)
    (tried : List UInt64) : Except (CallFailure ε) UInt64 × List UInt64 :=
  if _h : high.toNat - low.toNat > 1 then
    match run (midpoint low high) with
    | .ok outcome =>
        if outcome.status = 1 then
          estimateLoop run low (midpoint low high) (tried ++ [midpoint low high])
        else estimateLoop run (midpoint low high) high (tried ++ [midpoint low high])
    | .error err =>
        if isEstimateCandidateFailure err then
          estimateLoop run (midpoint low high) high (tried ++ [midpoint low high])
        else (.error err, tried ++ [midpoint low high])
  else (.ok high, tried)
termination_by high.toNat - low.toNat
decreasing_by
  all_goals
    rw [toNat_midpoint _h]
    omega

def ethEstimateGasObject (call : GasOracle ε) (blockGasLimit : UInt64) (input : CallObjectInput) :
    Except (CallFailure ε) UInt64 × List UInt64 :=
  let upperBound := input.gasLimit.getD blockGasLimit
  match ethCallObjectWithGasLimit call input upperBound with
  | .error err => (.error err, [upperBound])
  | .ok upperOutcome =>
      if upperOutcome.status ≠ 1 then
        (.error (.execFailed (some (.txError .txExecutionFailed))), [upperBound])
      else estimateLoop (ethCallObjectWithGasLimit call input) 0 upperBound [upperBound]

def Succeeds (run : UInt64 → Except (CallFailure ε) CallObjectResult) (gas : UInt64) : Prop :=
  ∃ outcome, run gas = .ok outcome ∧ outcome.status = 1

def Fails (run : UInt64 → Except (CallFailure ε) CallObjectResult) (gas : UInt64) : Prop :=
  (∃ outcome, run gas = .ok outcome ∧ outcome.status ≠ 1) ∨
    ∃ err, run gas = .error err ∧ isEstimateCandidateFailure err = true

-- between `low`, which failed unless it is the start of the search, and `high`, which succeeded
structure Brackets (run : UInt64 → Except (CallFailure ε) CallObjectResult) (low high : UInt64)
    (tried : List UInt64) : Prop where
  ordered : low.toNat < high.toNat ∨ high.toNat ≤ 1
  succeeded : Succeeds run high ∧ high ∈ tried
  failed : low.toNat = 0 ∨ Fails run low ∧ low ∈ tried

structure Tight (run : UInt64 → Except (CallFailure ε) CallObjectResult) (upper gas : UInt64)
    (tried : List UInt64) : Prop where
  succeeded : Succeeds run gas ∧ gas ∈ tried
  below : gas.toNat ≤ 1 ∨ ∃ less, less.toNat + 1 = gas.toNat ∧ Fails run less ∧ less ∈ tried
  bounded : gas ≤ upper

variable {run : UInt64 → Except (CallFailure ε) CallObjectResult}

theorem Brackets.lower {low high mid : UInt64} {tried : List UInt64}
    (h : Brackets run low high tried) (hmid : low.toNat < mid.toNat) (hrun : Succeeds run mid) :
    Brackets run low mid (tried ++ [mid]) where
  ordered := .inl hmid
  succeeded := ⟨hrun, List.mem_append_right _ List.mem_cons_self⟩
  failed := h.failed.imp_right (fun hfail => ⟨hfail.1, List.mem_append_left _ hfail.2⟩)

theorem Brackets.raise {low high mid : UInt64} {tried : List UInt64}
    (h : Brackets run low high tried) (hmid : mid.toNat < high.toNat) (hrun : Fails run mid) :
    Brackets run mid high (tried ++ [mid]) where
  ordered := .inl hmid
  succeeded := ⟨h.succeeded.1, List.mem_append_left _ h.succeeded.2⟩
  failed := .inr ⟨hrun, List.mem_append_right _ List.mem_cons_self⟩

theorem Brackets.tight {low high : UInt64} {tried : List UInt64}
    (h : Brackets run low high tried) (hclose : ¬ high.toNat - low.toNat > 1) :
    Tight run high high tried where
  succeeded := h.succeeded
  below := by
    have hordered := h.ordered
    rcases h.failed with hzero | hfail
    · left
      omega
    · rcases hordered with hlt | hsmall
      · exact .inr ⟨low, by omega, hfail⟩
      · exact .inl hsmall
  bounded := UInt64.le_refl high

theorem Tight.mono {upper upper' gas : UInt64} {tried : List UInt64}
    (h : Tight run upper gas tried) (hle : upper ≤ upper') : Tight run upper' gas tried :=
  ⟨h.succeeded, h.below, UInt64.le_trans h.bounded hle⟩

theorem estimateLoop_tight {low high : UInt64} {tried : List UInt64}
    (h : Brackets run low high tried) {gas : UInt64}
    (hok : (estimateLoop run low high tried).1 = .ok gas) :
    Tight run high gas (estimateLoop run low high tried).2 := by
  fun_induction estimateLoop run low high tried with
  | case1 low high tried hgap outcome hrun hstatus ih =>
      have hmid := toNat_midpoint hgap
      have htight := ih (h.lower (by omega) ⟨outcome, hrun, hstatus⟩) hok
      exact htight.mono (UInt64.le_iff_toNat_le.mpr (by omega))
  | case2 low high tried hgap outcome hrun hstatus ih =>
      have hmid := toNat_midpoint hgap
      exact ih (h.raise (by omega) (.inl ⟨outcome, hrun, hstatus⟩)) hok
  | case3 low high tried hgap err hrun hcandidate ih =>
      have hmid := toNat_midpoint hgap
      exact ih (h.raise (by omega) (.inr ⟨err, hrun, hcandidate⟩)) hok
  | case4 low high tried hgap err hrun hcandidate => cases hok
  | case5 low high tried hclose =>
      obtain rfl := Except.ok.inj hok
      exact h.tight hclose

theorem halves {low high : UInt64} {rounds : Nat} (hgap : 1 < high.toNat - low.toNat)
    (h : high.toNat - low.toNat ≤ 2 ^ rounds) :
    ∃ fewer, rounds = fewer + 1 ∧ (midpoint low high).toNat - low.toNat ≤ 2 ^ fewer ∧
      high.toNat - (midpoint low high).toNat ≤ 2 ^ fewer := by
  have hmid := toNat_midpoint hgap
  cases rounds with
  | zero =>
      rw [pow_zero] at h
      omega
  | succ fewer =>
      rw [pow_succ] at h
      exact ⟨fewer, rfl, by omega, by omega⟩

theorem length_estimateLoop (low high : UInt64) (tried : List UInt64) {rounds : Nat}
    (h : high.toNat - low.toNat ≤ 2 ^ rounds) :
    (estimateLoop run low high tried).2.length ≤ tried.length + rounds := by
  fun_induction estimateLoop run low high tried generalizing rounds with
  | case1 low high tried hgap outcome hrun hstatus ih =>
      obtain ⟨fewer, rfl, hlower, -⟩ := halves hgap h
      refine (ih hlower).trans ?_
      rw [List.length_append, List.length_singleton]
      omega
  | case2 low high tried hgap outcome hrun hstatus ih =>
      obtain ⟨fewer, rfl, -, hupper⟩ := halves hgap h
      refine (ih hupper).trans ?_
      rw [List.length_append, List.length_singleton]
      omega
  | case3 low high tried hgap err hrun hcandidate ih =>
      obtain ⟨fewer, rfl, -, hupper⟩ := halves hgap h
      refine (ih hupper).trans ?_
      rw [List.length_append, List.length_singleton]
      omega
  | case4 low high tried hgap err hrun hcandidate =>
      obtain ⟨fewer, rfl, -, -⟩ := halves hgap h
      rw [List.length_append, List.length_singleton]
      omega
  | case5 low high tried hclose => exact Nat.le_add_right _ _

theorem brackets_start {upper : UInt64} (h : Succeeds run upper) :
    Brackets run 0 upper [upper] where
  ordered := by
    rw [UInt64.toNat_zero]
    omega
  succeeded := ⟨h, List.mem_cons_self⟩
  failed := .inl rfl

theorem eth_estimate_gas_object_tight (call : GasOracle ε) (blockGasLimit : UInt64)
    (input : CallObjectInput) :
    (∀ gas, (ethEstimateGasObject call blockGasLimit input).1 = .ok gas →
      Tight (ethCallObjectWithGasLimit call input) (input.gasLimit.getD blockGasLimit) gas
        (ethEstimateGasObject call blockGasLimit input).2) ∧
      (ethEstimateGasObject call blockGasLimit input).2.length ≤ 65 := by
  rw [ethEstimateGasObject]
  cases hrun : ethCallObjectWithGasLimit call input (input.gasLimit.getD blockGasLimit) with
  | error err =>
      refine ⟨fun gas hok => ?_, ?_⟩
      · cases hok
      · simp
  | ok outcome =>
      by_cases hstatus : outcome.status = 1
      · simp only [hstatus, ne_eq, not_true_eq_false, if_false]
        refine ⟨fun gas hok => ?_, ?_⟩
        · exact estimateLoop_tight (brackets_start ⟨outcome, hrun, hstatus⟩) hok
        · refine (length_estimateLoop 0 _ _ (?_ : _ ≤ 2 ^ 64)).trans (by simp)
          have hlt := (input.gasLimit.getD blockGasLimit).toNat_lt
          omega
      · simp only [hstatus, ne_eq, not_false_eq_true, if_true]
        refine ⟨fun gas hok => ?_, ?_⟩
        · cases hok
        · simp

end Kasane.Rpc
