import Kasane.Gateway.Projection

namespace Kasane.Gateway

open Word Chain Exec
open WrapStoredRequest

variable {T : Type}

structure Extends (old new : WrapStoredRequest) : Prop where
  caller : new.caller = old.caller
  asset : new.assetId = old.assetId
  amount : new.amount = old.amount
  recipient : new.evmRecipient = old.evmRecipient
  gas : new.gasLimit = old.gasLimit
  price : new.result.chargedGasPriceWei = old.result.chargedGasPriceWei
  fee : old.result.feeLedgerTxId ≠ none → new.result.feeLedgerTxId ≠ none
  pull : old.result.pullLedgerTxId ≠ none → new.result.pullLedgerTxId ≠ none
  mint : old.result.mintTxId ≠ none → new.result.mintTxId ≠ none

namespace Extends

variable {old new last : WrapStoredRequest}

theorem refl (req : WrapStoredRequest) : Extends req req :=
  ⟨rfl, rfl, rfl, rfl, rfl, rfl, id, id, id⟩

theorem trans (h : Extends old new) (h' : Extends new last) : Extends old last where
  caller := h'.caller.trans h.caller
  asset := h'.asset.trans h.asset
  amount := h'.amount.trans h.amount
  recipient := h'.recipient.trans h.recipient
  gas := h'.gas.trans h.gas
  price := h'.price.trans h.price
  fee := h'.fee ∘ h.fee
  pull := h'.pull ∘ h.pull
  mint := h'.mint ∘ h.mint

variable (req : WrapStoredRequest) (now : Nat)

theorem ofResult {result : WrapRequestResult}
    (price : result.chargedGasPriceWei = req.result.chargedGasPriceWei)
    (fee : req.result.feeLedgerTxId ≠ none → result.feeLedgerTxId ≠ none)
    (pull : req.result.pullLedgerTxId ≠ none → result.pullLedgerTxId ≠ none)
    (mint : req.result.mintTxId ≠ none → result.mintTxId ≠ none) :
    Extends req { req with result := result } :=
  ⟨rfl, rfl, rfl, rfl, rfl, price, fee, pull, mint⟩

theorem recordWrapFeeCollected (feeLedgerTxId : LedgerTxId) :
    Extends req (req.recordWrapFeeCollected feeLedgerTxId now) :=
  ofResult req rfl (fun _ h => nomatch h) id id

theorem recordWrapPullSuccess (pullLedgerTxId : LedgerTxId) :
    Extends req (req.recordWrapPullSuccess pullLedgerTxId now) :=
  ofResult req rfl id (fun _ h => nomatch h) id

theorem recordWrapRequestFailure (code : String) (recoverable : Bool) :
    Extends req (req.recordWrapRequestFailure code recoverable now) :=
  ofResult req rfl id id id

theorem markRunning : Extends req (req.markRunning now) := ofResult req rfl id id id

theorem markWrapStage (stage : WrapRequestStage) (status : RequestStatus) :
    Extends req (req.markWrapStage stage status now) :=
  ofResult req rfl id id id

theorem recordWrapMintSubmitting (nonce : UInt64) :
    Extends req (req.recordWrapMintSubmitting nonce now) :=
  ofResult req rfl id id id

theorem recordWrapMintSubmitted (txId : TxId) :
    Extends req (req.recordWrapMintSubmitted txId now) :=
  ofResult req rfl id id (fun _ h => nomatch h)

theorem or_ne_none {α : Type} {x y : Option α} (h : y ≠ none) : x.or y ≠ none := by
  cases x with
  | none => exact h
  | some a => simp

theorem applyWrapExecutionOutcome (outcome : WrapExecutionOutcome) :
    Extends req (req.applyWrapExecutionOutcome outcome now) :=
  ofResult req rfl id or_ne_none or_ne_none

theorem finishRecover (transfer : Except String LedgerTxId) :
    Extends req (req.finishRecover transfer now) := by
  cases transfer with
  | error code => exact ofResult req rfl id id id
  | ok ledgerTxId => exact ofResult req rfl id id id

theorem recoverFailedWrap {req new : WrapStoredRequest} (h : req.recoverFailedWrap now = .ok new) :
    Extends req new := by
  obtain ⟨-, time, rfl⟩ := recoverFailedWrap_ok h
  exact ⟨rfl, rfl, rfl, rfl, rfl, rfl, id, id, id⟩

theorem finalizeNativeDepositCredit (id : TxId) (outcome : Except String Unit) :
    Extends req (req.finalizeNativeDepositCredit id outcome now) := by
  cases outcome with
  | error code => exact ofResult req rfl (fun h => h) (fun h => h) (fun h => h)
  | ok _ => exact ofResult req rfl (fun h => h) (fun h => h) (fun _ h => nomatch h)

theorem retryNativeDeposit {req new : WrapStoredRequest} (h : req.retryNativeDeposit = .ok new) :
    Extends req new := by
  obtain ⟨-, -, -, -, rfl⟩ := retryNativeDeposit_ok h
  exact ofResult req rfl id id id

theorem finishRetry (id : TxId) (outcome : Except String Unit) :
    Extends req (req.finishRetry id outcome) := by
  cases outcome with
  | error code => exact ofResult req rfl (fun h => h) (fun h => h) (fun h => h)
  | ok _ => exact ofResult req rfl (fun h => h) (fun h => h) (fun _ h => nomatch h)

theorem settleRequest (c : StableState (World T)) :
    Extends req (GatewayState.settleRequest c now req) := by
  rcases GatewayState.settleRequest_cases c now req with h | ⟨_, _, _, _, ⟨_, h⟩ | ⟨_, h⟩⟩
  · rw [h]
    exact refl req
  · rw [h]
    exact ofResult req rfl id id id
  · rw [h]
    exact ofResult req rfl id id id

theorem repairStale : Extends req (req.repairStale now) := by
  rw [WrapStoredRequest.repairStale]
  split_ifs
  · exact ofResult req rfl id id id
  · exact ofResult req rfl id id id
  · exact refl req

theorem recoverAfterUpgrade : Extends req req.recoverAfterUpgrade := by
  rw [WrapStoredRequest.recoverAfterUpgrade]
  split_ifs
  · exact ofResult req rfl id id id
  · exact refl req

end Extends

def Lane.Kept (l l' : Lane) : Prop :=
  ∀ old, l.record = some old → ∃ new, l'.record = some new ∧ Extends old new

namespace Lane.Kept

variable {l l' l'' : Lane}

theorem same (h : l'.record = l.record) : Kept l l' :=
  fun old hold => ⟨old, h.trans hold, .refl old⟩

theorem trans (h : Kept l l') (h' : Kept l' l'') : Kept l l'' := by
  intro old hold
  obtain ⟨new, hnew, hextends⟩ := h old hold
  obtain ⟨last, hlast, hextends'⟩ := h' new hnew
  exact ⟨last, hlast, hextends.trans hextends'⟩

theorem update {f : WrapStoredRequest → WrapStoredRequest} (hf : ∀ req, Extends req (f req)) :
    Kept l (l.update f) := by
  intro old hold
  exact ⟨f old, by rw [Lane.update, hold, Option.map_some], hf old⟩

theorem replace {old new : WrapStoredRequest} (h : l.record = some old)
    (h' : l'.record = some new) (hextends : Extends old new) : Kept l l' := by
  intro found hfound
  obtain rfl := Option.some.inj (h.symm.trans hfound)
  exact ⟨new, h', hextends⟩

theorem resumes {task : WrapTask} (h : Lane.Resumes task l l') : Kept l l' := by
  obtain ⟨before, after, -, rfl⟩ := h
  exact same rfl

theorem finish {now : Nat} {outcome : WrapExecutionOutcome} : Kept l (l.finish now outcome) :=
  update (fun req => .applyWrapExecutionOutcome req now outcome)

theorem startsMint {now : Nat} {req : WrapStoredRequest} {pullLedgerTxId : LedgerTxId}
    (h : Lane.StartsMint now req pullLedgerTxId l l') : Kept l l' := by
  cases h with
  | known => exact finish
  | unconfigured => exact finish
  | decimals => exact same rfl

theorem executes {now : Nat} {req : WrapStoredRequest} (h : Lane.Executes now req l l') :
    Kept l l' := by
  cases h with
  | pulls =>
      exact (update (fun req => .markWrapStage req now _ _)).trans (same rfl)
  | mints _ starts => exact startsMint starts

theorem minted {id : TxId} {now : Nat} {pullLedgerTxId : LedgerTxId} {txId : TxId}
    {accepted : Bool} : Kept l (l.minted id now pullLedgerTxId txId accepted) :=
  ((update (fun req => .recordWrapMintSubmitted req now txId)).trans finish).trans (same rfl)

theorem submitsMint {env : Env T} {id : TxId} {now : Nat} {factory : Address}
    {req : WrapStoredRequest} {pullLedgerTxId : LedgerTxId} {c c' : StableState (World T)}
    (h : Lane.SubmitsMint env id now factory req pullLedgerTxId c l c' l') : Kept l l' := by
  have hsubmitting (nonce : UInt64) : Kept l (l.update (recordWrapMintSubmitting nonce now)) :=
    update (fun req => .recordWrapMintSubmitting req now nonce)
  cases h with
  | stopped => exact finish
  | unpriced nonce => exact (hsubmitting nonce).trans finish
  | accepted => exact (hsubmitting _).trans minted
  | duplicate => exact (hsubmitting _).trans minted
  | rejected => exact (hsubmitting _).trans finish

theorem credits {id : TxId} {recipient : Address} {amountWei : Nat} {outcome : Except String Unit}
    (h : Lane.CreditsNative id recipient amountWei l outcome l') : Kept l l' := by
  cases h <;> exact same rfl

theorem finalizes {id : TxId} {now : Nat} {flow : DepositFlow} {req : WrapStoredRequest}
    (h : Lane.Finalizes id now flow req l l') : Kept l l' := by
  cases h with
  | done => exact same rfl
  | credits hcredits =>
      exact ((credits hcredits).trans
        (update (fun req => .finalizeNativeDepositCredit req now id _))).trans (same rfl)

theorem deposits {id : TxId} {now : Nat} {flow : DepositFlow} {req : WrapStoredRequest}
    (h : Lane.Deposits id now flow req l l') : Kept l l' := by
  cases h with
  | pulls => exact same rfl
  | finalizes _ hfinalizes => exact finalizes hfinalizes

theorem failDeposit {now : Nat} {code : String} : Kept l (l.failDeposit now code) :=
  (update (fun req => .recordWrapRequestFailure req now code false)).trans (same rfl)

theorem reserve {req : WrapStoredRequest} (h : l.record = some req ∨ l.record = none) :
    Kept l (l.reserve req) := by
  rcases h with h | h
  · exact replace h rfl (.refl req)
  · intro old hold
    exact absurd (h.symm.trans hold) (by simp)

end Lane.Kept

open Lane in
theorem LaneStep.kept {env : Env T} {id : TxId} {c c' : StableState (World T)} {a : Action}
    {l l' : Lane} (h : LaneStep env id c c' a l l') : Kept l l' := by
  cases h with
  | other => exact .same rfl
  | forget => exact .same rfl
  | submit _ opens =>
      have hopened := opens.opened.imp_right And.left
      exact (Kept.reserve hopened).trans (.same rfl)
  | unpaid _ resumes => exact (Kept.resumes resumes).trans .failDeposit
  | paid feeLedgerTxId resumes =>
      exact ((Kept.resumes resumes).trans
        (.update (fun req => .recordWrapFeeCollected req _ feeLedgerTxId))).trans (.same rfl)
  | launch found _ executes =>
      exact (Kept.replace found rfl (.markRunning _ _)).trans (.executes executes)
  | unpulled _ resumes => exact (Kept.resumes resumes).trans .finish
  | pulled resumes starts =>
      exact ((Kept.resumes resumes).trans
        (.update (fun req => .recordWrapPullSuccess req _ _))).trans (.startsMint starts)
  | mint resumes submits => exact (Kept.resumes resumes).trans (.submitsMint submits)
  | recover found allowed => exact .replace found rfl (.recoverFailedWrap _ allowed)
  | refunded transfer resumes =>
      exact (Kept.resumes resumes).trans (.update (fun req => .finishRecover req _ transfer))
  | depositFee _ opens =>
      have hopened := opens.opened.imp And.left And.left
      exact (Kept.reserve hopened).trans (.same rfl)
  | depositAgain _ opens _ deposits =>
      have hopened := opens.opened.imp And.left And.left
      exact (Kept.reserve hopened).trans (.deposits deposits)
  | depositUnpaid _ resumes => exact (Kept.resumes resumes).trans .failDeposit
  | depositPaid resumes _ deposits =>
      exact ((Kept.resumes resumes).trans
        (.update (fun req => .recordWrapFeeCollected req _ _))).trans (.deposits deposits)
  | depositUnpulled _ resumes => exact (Kept.resumes resumes).trans .failDeposit
  | depositPulled resumes _ finalizes =>
      exact ((Kept.resumes resumes).trans
        (.update (fun req => .recordWrapPullSuccess req _ _))).trans (.finalizes finalizes)
  | depositLost _ _ resumes => exact .resumes resumes
  | retry found allowed _ credits =>
      exact ((Kept.replace found rfl (.retryNativeDeposit allowed)).trans (.credits credits)).trans
        (.update (fun req => .finishRetry req id _))
  | retryRefused _ found allowed =>
      exact (Kept.replace found rfl (.retryNativeDeposit allowed)).trans
        (.update (fun req => .finishRetry req id _))
  | settle => exact .update (fun req => .settleRequest req _ c')
  | repair =>
      exact (Kept.update (fun req => (Extends.settleRequest req _ c).trans
        (.repairStale _ _))).trans (.same rfl)
  | upgrade => exact (Kept.update Extends.recoverAfterUpgrade).trans (.same rfl)

namespace Lane

inductive Spawns (l : Lane) : WrapTask → Prop
  | submitFee (call : Nat) : Spawns l (.submitFee call)
  | pull {old : WrapStoredRequest} (found : l.record = some old)
      (unpulled : old.result.pullLedgerTxId = none) (call now : Nat) :
      Spawns l (.pull call (old.markRunning now))
  | launched {old : WrapStoredRequest} (found : l.record = some old)
      (unknown : old.result.mintTxId = none) (factory : Address) (now : Nat)
      (pullLedgerTxId : LedgerTxId) :
      Spawns l (.decimals factory (old.markRunning now) pullLedgerTxId)
  | pulled {call : Nat} {req : WrapStoredRequest} (held : .pull call req ∈ l.tasks)
      (unknown : req.result.mintTxId = none) (factory : Address) (pullLedgerTxId : LedgerTxId) :
      Spawns l (.decimals factory req pullLedgerTxId)
  | refund (call : Nat) : Spawns l (.refund call)
  | depositFee (call : Nat) (flow : DepositFlow) : Spawns l (.depositFee call flow)
  | depositPull (call : Nat) (flow : DepositFlow) : Spawns l (.depositPull call flow)

variable {l l' : Lane}

theorem Resumes.mem {task task' : WrapTask} (h : Resumes task l l') (hmem : task' ∈ l'.tasks) :
    task' ∈ l.tasks := by
  obtain ⟨before, after, htasks, rfl⟩ := h
  rw [htasks]
  rcases List.mem_append.mp hmem with hmem | hmem
  · exact List.mem_append_left _ hmem
  · exact List.mem_append_right _ (List.mem_cons_of_mem _ hmem)

theorem Resumes.task_mem {task : WrapTask} (h : Resumes task l l') : task ∈ l.tasks := by
  obtain ⟨before, after, htasks, -⟩ := h
  rw [htasks]
  exact List.mem_append_right _ List.mem_cons_self

theorem mem_suspend {task task' : WrapTask} (h : task' ∈ (l.suspend task).tasks) :
    task' ∈ l.tasks ∨ task' = task :=
  (List.mem_append.mp h).imp_right List.mem_singleton.mp

theorem spawned {l' : Lane} {task task' : WrapTask} (h : task' ∈ (l'.suspend task).tasks)
    (hspawns : Spawns l task) : task' ∈ l'.tasks ∨ Spawns l task' := by
  rcases mem_suspend h with h | rfl
  · exact Or.inl h
  · exact Or.inr hspawns

theorem StartsMint.tasks {now : Nat} {req : WrapStoredRequest} {pullLedgerTxId : LedgerTxId}
    (h : StartsMint now req pullLedgerTxId l l') {task : WrapTask} (htask : task ∈ l'.tasks) :
    task ∈ l.tasks ∨ (req.result.mintTxId = none ∧
      ∃ factory, task = .decimals factory req pullLedgerTxId) := by
  cases h with
  | known => exact Or.inl htask
  | unconfigured => exact Or.inl htask
  | decimals unknown factory => exact (mem_suspend htask).imp_right (fun h => ⟨unknown, factory, h⟩)

theorem SubmitsMint.tasks {env : Env T} {id : TxId} {now : Nat} {factory : Address}
    {req : WrapStoredRequest} {pullLedgerTxId : LedgerTxId} {c c' : StableState (World T)}
    (h : SubmitsMint env id now factory req pullLedgerTxId c l c' l') : l'.tasks = l.tasks := by
  cases h <;> rfl

theorem Finalizes.tasks {id : TxId} {now : Nat} {flow : DepositFlow} {req : WrapStoredRequest}
    (h : Finalizes id now flow req l l') : l'.tasks = l.tasks := by
  cases h with
  | done => rfl
  | credits credits => cases credits <;> rfl

theorem Deposits.tasks {id : TxId} {now : Nat} {flow : DepositFlow} {req : WrapStoredRequest}
    (h : Deposits id now flow req l l') {task : WrapTask} (htask : task ∈ l'.tasks) :
    task ∈ l.tasks ∨ ∃ call, task = .depositPull call flow := by
  cases h with
  | pulls _ call => exact (mem_suspend htask).imp_right (fun h => ⟨call, h⟩)
  | finalizes _ finalizes => exact Or.inl (finalizes.tasks ▸ htask)

end Lane

open Lane in
theorem LaneStep.tasks {env : Env T} {id : TxId} {c c' : StableState (World T)} {a : Action}
    {l l' : Lane} (h : LaneStep env id c c' a l l') {task : WrapTask} (htask : task ∈ l'.tasks) :
    task ∈ l.tasks ∨ Spawns l task := by
  cases h with
  | other => exact Or.inl htask
  | forget => exact Or.inl htask
  | submit => exact spawned htask (.submitFee _)
  | unpaid _ resumes => exact Or.inl (resumes.mem htask)
  | paid _ resumes => exact Or.inl (resumes.mem htask)
  | launch found _ executes =>
      cases executes with
      | pulls unpulled call =>
          exact spawned htask (.pull found unpulled call _)
      | mints _ starts =>
          refine (starts.tasks htask).imp_right ?_
          rintro ⟨hunknown, factory, rfl⟩
          exact .launched found hunknown factory _ _
  | unpulled _ resumes => exact Or.inl (resumes.mem htask)
  | pulled resumes starts =>
      rcases starts.tasks htask with htask | ⟨hunknown, factory, rfl⟩
      · exact Or.inl (resumes.mem htask)
      · exact Or.inr (.pulled resumes.task_mem hunknown factory _)
  | mint resumes submits =>
      rw [submits.tasks] at htask
      exact Or.inl (resumes.mem htask)
  | recover => exact spawned htask (.refund _)
  | refunded _ resumes => exact Or.inl (resumes.mem htask)
  | depositFee => exact spawned htask (.depositFee _ _)
  | depositAgain _ _ _ deposits =>
      refine (deposits.tasks htask).imp_right ?_
      rintro ⟨call, rfl⟩
      exact .depositPull call _
  | depositUnpaid _ resumes => exact Or.inl (resumes.mem htask)
  | depositPaid resumes _ deposits =>
      rcases deposits.tasks htask with htask | ⟨call, rfl⟩
      · exact Or.inl (resumes.mem htask)
      · exact Or.inr (.depositPull call _)
  | depositUnpulled _ resumes => exact Or.inl (resumes.mem htask)
  | depositPulled resumes _ finalizes =>
      rw [finalizes.tasks] at htask
      exact Or.inl (resumes.mem htask)
  | depositLost _ _ resumes => exact Or.inl (resumes.mem htask)
  | retry _ _ _ credits => cases credits <;> exact Or.inl htask
  | retryRefused => exact Or.inl htask
  | settle => exact Or.inl htask
  | repair => exact Or.inl htask
  | upgrade => exact absurd htask List.not_mem_nil

end Kasane.Gateway
