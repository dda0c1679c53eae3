import Kasane.Gateway.Exclusive
import Kasane.Exec.Replay
import Mathlib.Data.List.GetD

namespace Kasane.Gateway

open BigEndian Word Chain Exec
open WrapStoredRequest

variable {T : Type}

namespace Lane

def Minted (l : Lane) : Prop := ∃ req, l.record = some req ∧ req.result.mintTxId ≠ none

theorem Kept.hasMint {l l' : Lane} (h : Kept l l') (hminted : l.Minted) : l'.Minted := by
  obtain ⟨old, hold, hmint⟩ := hminted
  obtain ⟨new, hnew, hextends⟩ := h old hold
  exact ⟨new, hnew, hextends.mint hmint⟩

theorem minted_hasMint {l : Lane} {id : TxId} {now : Nat} {pullLedgerTxId : LedgerTxId}
    {txId : TxId} {accepted : Bool} (h : l.record ≠ none) :
    (l.minted id now pullLedgerTxId txId accepted).Minted := by
  obtain ⟨old, hold⟩ := Option.ne_none_iff_exists'.mp h
  refine ⟨(old.recordWrapMintSubmitted txId now).applyWrapExecutionOutcome
    (wrapMinted pullLedgerTxId txId) now, ?_, ?_⟩
  · rw [Lane.minted, Lane.finish, Lane.update, Lane.update, hold, Option.map_some, Option.map_some]
  · simp [applyWrapExecutionOutcome, sanitizeWrapRequest, wrapMinted]

theorem SubmitsMint.mints {env : Env T} {id : TxId} {now : Nat} {factory : Address}
    {req : WrapStoredRequest} {pullLedgerTxId : LedgerTxId} {c c' : StableState (World T)}
    {l l' : Lane} (h : SubmitsMint env id now factory req pullLedgerTxId c l c' l')
    (hfound : l.record ≠ none) :
    l'.mints = l.mints ∨ ((∃ mint, l'.mints = l.mints ++ [mint]) ∧ l'.Minted) := by
  have hsubmitting (nonce : UInt64) :
      (l.update (recordWrapMintSubmitting nonce now)).record ≠ none := by
    intro hnone
    exact hfound (update_record_none hnone)
  cases h with
  | stopped => exact Or.inl rfl
  | unpriced => exact Or.inl rfl
  | accepted => exact Or.inr ⟨⟨_, rfl⟩, minted_hasMint (hsubmitting _)⟩
  | duplicate => exact Or.inr ⟨⟨_, rfl⟩, minted_hasMint (hsubmitting _)⟩
  | rejected => exact Or.inl rfl

theorem Finalizes.mints_eq {id : TxId} {now : Nat} {flow : DepositFlow} {req : WrapStoredRequest}
    {l l' : Lane} (h : Finalizes id now flow req l l') : l'.mints = l.mints := by
  cases h with
  | done => rfl
  | credits credits => cases credits <;> rfl

theorem Deposits.mints_eq {id : TxId} {now : Nat} {flow : DepositFlow} {req : WrapStoredRequest}
    {l l' : Lane} (h : Deposits id now flow req l l') : l'.mints = l.mints := by
  cases h with
  | pulls => rfl
  | finalizes _ finalizes => exact finalizes.mints_eq

theorem StartsMint.mints_eq {now : Nat} {req : WrapStoredRequest} {pullLedgerTxId : LedgerTxId}
    {l l' : Lane} (h : StartsMint now req pullLedgerTxId l l') : l'.mints = l.mints := by
  cases h <;> rfl

theorem Executes.mints_eq {now : Nat} {req : WrapStoredRequest} {l l' : Lane}
    (h : Executes now req l l') : l'.mints = l.mints := by
  cases h with
  | pulls => rfl
  | mints _ starts => exact starts.mints_eq

theorem Resumes.mints_eq {task : WrapTask} {l l' : Lane} (h : Resumes task l l') :
    l'.mints = l.mints := by
  obtain ⟨before, after, -, rfl⟩ := h
  rfl

end Lane

open Lane in
theorem LaneStep.mints {env : Env T} {id : TxId} {c c' : StableState (World T)} {a : Action}
    {l l' : Lane} (h : LaneStep env id c c' a l l') :
    l'.mints = l.mints ∨ ∃ factory req pullLedgerTxId now l₀,
      Resumes (.decimals factory req pullLedgerTxId) l l₀ ∧
        SubmitsMint env id now factory req pullLedgerTxId c l₀ c' l' := by
  cases h with
  | other => exact Or.inl rfl
  | forget => exact Or.inl rfl
  | submit => exact Or.inl rfl
  | unpaid _ resumes => exact Or.inl resumes.mints_eq
  | paid _ resumes => exact Or.inl resumes.mints_eq
  | launch _ _ executes => exact Or.inl executes.mints_eq
  | unpulled _ resumes => exact Or.inl resumes.mints_eq
  | pulled resumes starts => exact Or.inl (starts.mints_eq.trans resumes.mints_eq)
  | mint resumes submits => exact Or.inr ⟨_, _, _, _, _, resumes, submits⟩
  | recover => exact Or.inl rfl
  | refunded _ resumes => exact Or.inl resumes.mints_eq
  | depositFee => exact Or.inl rfl
  | depositAgain _ _ _ deposits => exact Or.inl deposits.mints_eq
  | depositUnpaid _ resumes => exact Or.inl resumes.mints_eq
  | depositPaid resumes _ deposits => exact Or.inl (deposits.mints_eq.trans resumes.mints_eq)
  | depositUnpulled _ resumes => exact Or.inl resumes.mints_eq
  | depositPulled resumes _ finalizes => exact Or.inl (finalizes.mints_eq.trans resumes.mints_eq)
  | depositLost _ _ resumes => exact Or.inl resumes.mints_eq
  | retry _ _ _ credits => cases credits <;> exact Or.inl rfl
  | retryRefused => exact Or.inl rfl
  | settle => exact Or.inl rfl
  | repair => exact Or.inl rfl
  | upgrade => exact Or.inl rfl

namespace Lane

structure MintOnce (l : Lane) : Prop extends Exclusive l where
  recorded : l.mints ≠ [] → l.Minted
  seen : l.mints ≠ [] → ∀ task ∈ l.tasks, ∀ req, task.worker = some req →
    req.result.mintTxId ≠ none
  fresh : ∀ factory req pullLedgerTxId, .decimals factory req pullLedgerTxId ∈ l.tasks →
    req.result.mintTxId = none
  once : l.mints.length ≤ 1

end Lane

open Lane in
theorem LaneStep.mintOnce {env : Env T} {id : TxId} {c c' : StableState (World T)} {a : Action}
    {l l' : Lane} (hid : ¬ IsNativeDepositId env.crypto id) (hok : l.RepairsUnheld a)
    (h : LaneStep env id c c' a l l') (hl : MintOnce l) : MintOnce l' := by
  have hexclusive := h.exclusive hid hok hl.toExclusive
  have hfresh (factory : Address) (req : WrapStoredRequest) (pullLedgerTxId : LedgerTxId)
      (htask : .decimals factory req pullLedgerTxId ∈ l'.tasks) : req.result.mintTxId = none := by
    rcases h.tasks htask with htask | hspawns
    · exact hl.fresh factory req pullLedgerTxId htask
    · cases hspawns with
      | launched _ unknown => exact unknown
      | pulled _ unknown => exact unknown
  rcases h.mints with hsame | ⟨factory, req, pullLedgerTxId, now, l₀, hresumes, hsubmits⟩
  · refine ⟨hexclusive, ?_, ?_, hfresh, hsame ▸ hl.once⟩
    · intro hmints
      exact h.kept.hasMint (hl.recorded (hsame ▸ hmints))
    · intro hmints task htask snapshot hsnapshot
      rw [hsame] at hmints
      rcases h.tasks htask with htask | hspawns
      · exact hl.seen hmints task htask snapshot hsnapshot
      · have hrecord {old : WrapStoredRequest} (hold : l.record = some old) :
            old.result.mintTxId ≠ none := by
          obtain ⟨found, hfound, hmint⟩ := hl.recorded hmints
          obtain rfl := Option.some.inj (hold.symm.trans hfound)
          exact hmint
        cases hspawns with
        | submitFee => exact absurd hsnapshot (by simp [WrapTask.worker])
        | pull found =>
            obtain rfl := Option.some.inj hsnapshot
            have hmint := hrecord found
            exact hmint
        | launched found unknown => exact absurd unknown (hrecord found)
        | pulled held unknown => exact absurd unknown (hl.seen hmints _ held _ rfl)
        | refund => exact absurd hsnapshot (by simp [WrapTask.worker])
        | depositFee => exact absurd hsnapshot (by simp [WrapTask.worker])
        | depositPull => exact absurd hsnapshot (by simp [WrapTask.worker])
  · -- the worker that mints holds a snapshot without a mint, so nothing was submitted before it
    have hunknown := hl.fresh factory req pullLedgerTxId hresumes.task_mem
    have hnone : l.mints = [] := by
      by_contra hmints
      exact hl.seen hmints _ hresumes.task_mem req rfl hunknown
    have hheld := hl.toExclusive.resumeWorker hresumes rfl
    have hnoWorker (task : WrapTask) (htask : task ∈ l'.tasks) : task.worker = none := by
      rw [hsubmits.tasks] at htask
      simpa using List.countP_eq_zero.mp hheld.free task htask
    have hseen (hmints : l'.mints ≠ []) (task : WrapTask) (htask : task ∈ l'.tasks)
        (snapshot : WrapStoredRequest) (hsnapshot : task.worker = some snapshot) :
        snapshot.result.mintTxId ≠ none := by
      rw [hnoWorker task htask] at hsnapshot
      exact absurd hsnapshot (by simp)
    rcases hsubmits.mints hheld.found with hsame | ⟨⟨mint, hmint⟩, hminted⟩
    · rw [hresumes.mints_eq, hnone] at hsame
      refine ⟨hexclusive, fun hmints => absurd hsame hmints, hseen, hfresh, ?_⟩
      rw [hsame]
      exact Nat.zero_le 1
    · rw [hresumes.mints_eq, hnone] at hmint
      refine ⟨hexclusive, fun _ => hminted, hseen, hfresh, ?_⟩
      rw [hmint]
      exact le_refl 1

open GatewayState

theorem mint_submitted_once {env : Env T} {world : World T} {config : WrapConfig}
    {ledgers : Principal → DedupLedger.Ledger Principal} {id : TxId}
    (hid : ¬ IsNativeDepositId env.crypto id) {s : GatewayState T}
    (run : Run env (RepairsUnheld id) (init world config ledgers) s) :
    (s.mints.filter (fun mint => decide (mint.requestId = id))).length ≤ 1 := by
  have hinv : (s.lane id).MintOnce := by
    refine run_invariant (fun s => (s.lane id).MintOnce) ?_ ?_ run
    · exact ⟨Lane.exclusive_start, by simp [lane_init, Lane.start], by simp [lane_init, Lane.start],
        by simp [lane_init, Lane.start], Nat.zero_le 1⟩
    · intro s t a hinv hok _ hdone
      exact (perform_lane hdone id).mintOnce hid hok.lane hinv
  exact hinv.once

section

def sampleHash (bytes : Bytes) : ByteArr 32 :=
  ⟨[UInt8.ofNat (bytes.map UInt8.toNat).sum, bytes.getD 7 0] ++ List.replicate 30 0, by simp⟩

def sampleGatewayCrypto : Crypto where
  keccak256 := sampleHash
  deriveEvmAddress := fun bytes => some (lastByteArr 20 bytes)
  recoverEthTx := fun _ => none

def acceptingRevm : Revm where
  inspectTx := fun _ _ _ => .ok (.success 21000 (.call []) [], OrdMap.empty)
  exceeds := fun _ _ _ _ => false
  pendingQuery := fun _ _ _ => false
  traces := fun _ _ _ _ => none

def samplePrincipalOf (b : UInt8) : StoredPrincipal :=
  ⟨⟨[b], by simp [maxPrincipalLen]⟩, by simp⟩

def sampleGateway : Env Unit where
  crypto := sampleGatewayCrypto
  revm := acceptingRevm
  trie := sampleTrie
  canisterSelf := samplePrincipalOf 99
  window := 1000000

def sampleConfig : WrapConfig where
  feePolicy := ⟨samplePrincipalOf 50, 10, 10000⟩
  factoryAddress := sampleAddress 7
  nativeLedgerCanister := samplePrincipalOf 51
  allowedAssets := [(samplePrincipalOf 60).principal]

def sampleLedger : DedupLedger.Ledger Principal := ⟨0, 0, 0, []⟩

def sampleStart : GatewayState Unit := init emptyWorld sampleConfig (fun _ => sampleLedger)

def sampleWrap : SubmitWrapRequestArgs where
  assetId := (samplePrincipalOf 60).principal
  amountE8s := 1000
  evmRecipient := sampleAddress 3
  evmNonce := 0
  gasLimit := 100000
  maxFeeE8s := .ofNat 128 (10 ^ 30)
  quotedGasPriceWei := .ofNat 128 (10 ^ 30)
  feeLedgerCanister := (samplePrincipalOf 50).principal

def sampleWrapId : TxId :=
  deriveWrapRequestId sampleGatewayCrypto [70] [60] (encode 32 1000) (sampleAddress 3).toList 0 100000

def sampleMintReply : WrapReply := .mint ⟨.ok 8, .ok (.ofNat 128 (200 * 10 ^ 9))⟩

def laterThanStale : Nat := staleOperationNanos + 10

def submitAndPay : List Action :=
  [.submitWrapRequest 1 (500 * 10 ^ 9) (samplePrincipalOf 70).principal sampleWrap,
    .ledgerExecutes 1 0 none, .resumeWrap 1 0 (.ledger .delivered)]

def pullAndMint : List Action :=
  [.wrapWorkerTick 1, .ledgerExecutes 1 1 none, .resumeWrap 1 0 (.ledger .delivered),
    .resumeWrap 1 0 sampleMintReply]

def overlappingWorkers : List Action :=
  [.wrapWorkerTick 1, .ledgerExecutes 1 1 none, .repairStaleOperations laterThanStale,
    .wrapWorkerTick laterThanStale, .ledgerExecutes laterThanStale 2 none,
    .resumeWrap laterThanStale 1 (.ledger .delivered),
    .resumeWrap laterThanStale 1 sampleMintReply]

theorem sampleWrapId_not_deposit : ¬ IsNativeDepositId sampleGateway.crypto sampleWrapId := by
  rintro ⟨owner, depositId, hid⟩
  have hbyte : sampleWrapId.toList.getD 1 0 = ("kasane.native.deposit.v2".toUTF8.toList ++
      (hashLenPrefixed owner ++ hashLenPrefixed depositId)).getD 7 0 :=
    congrArg (fun h : ByteArr 32 => h.toList.getD 1 0) hid
  rw [List.getD_append _ _ _ 7 (by decide +kernel)] at hbyte
  exact absurd hbyte (by decide +kernel)

theorem mint_submitted_once_run :
    ∃ s, Run sampleGateway (RepairsUnheld sampleWrapId) sampleStart s ∧
      (s.mints.filter (fun mint => decide (mint.requestId = sampleWrapId))).length = 1 ∧
        (s.mints.filter (fun mint => decide (mint.requestId = sampleWrapId))).length ≤ 1 := by
  have hok : ∀ a ∈ submitAndPay ++ pullAndMint, ∀ s : GatewayState Unit,
      RepairsUnheld sampleWrapId s a := by
    intro a ha s
    have hrepair := (by decide : ∀ a ∈ submitAndPay ++ pullAndMint, a.repairs = false) a ha
    exact .ofNotRepairs hrepair
  obtain ⟨s, hrun, hone⟩ := run_of_any sampleGateway (submitAndPay ++ pullAndMint) sampleStart
    (fun s => decide
      ((s.mints.filter (fun mint => decide (mint.requestId = sampleWrapId))).length = 1))
    (by decide) hok (by decide +kernel)
  exact ⟨s, hrun, of_decide_eq_true hone, mint_submitted_once sampleWrapId_not_deposit hrun⟩

theorem mint_submitted_twice :
    ∃ s m n, Run sampleGateway (fun _ _ => True) sampleStart s ∧ m ∈ s.mints ∧ n ∈ s.mints ∧
      m.requestId = sampleWrapId ∧ n.requestId = sampleWrapId ∧ m.accepted = true ∧
        n.accepted = true ∧ m.txId ≠ n.txId := by
  obtain ⟨s, hrun, htwo⟩ := run_of_any sampleGateway (submitAndPay ++ overlappingWorkers ++
      [.miningTick laterThanStale sampleEnv, .resumeWrap laterThanStale 0 (.ledger .delivered),
        .resumeWrap laterThanStale 0 sampleMintReply]) sampleStart
    (fun s => s.mints.any (fun m => s.mints.any (fun n => decide
      (m.requestId = sampleWrapId ∧ n.requestId = sampleWrapId ∧ m.accepted = true ∧
        n.accepted = true ∧ m.txId ≠ n.txId))))
    (by decide) (fun _ _ _ => trivial) (by decide +kernel)
  obtain ⟨m, hm, hinner⟩ := List.any_eq_true.mp htwo
  obtain ⟨n, hn, hmn⟩ := List.any_eq_true.mp hinner
  exact ⟨s, m, n, hrun, hm, hn, of_decide_eq_true hmn⟩

end

end Kasane.Gateway
