import Kasane.Gateway.RequestsStored

namespace Kasane.Gateway

open BigEndian Codec Word Chain Exec OrdMap
open Precompile (isAscii icpUpdateIntentFromLog)

variable {T : Type}

namespace IcpUpdateDispatchRequest

def record (req : IcpUpdateDispatchRequest) : IcpUpdateRecord where
  requestId := req.requestId
  txId := req.txId
  blockNumber := req.blockNumber
  txIndex := req.txIndex
  logIndex := req.logIndex
  txKind := req.txKind
  evmSender := req.evmSender
  icCaller := req.icCaller.map Principal.bytes
  target := req.target
  method := req.method
  arg := req.arg
  status := req.status
  reply := req.reply
  errorCode := req.errorCode
  updatedAt := .ofNat req.updatedAt
  callStartedAtTime := .ofNat req.callStartedAtTime

structure Storable (req : IcpUpdateDispatchRequest) : Prop where
  target : req.target ≠ [] ∧ req.target.length ≤ IcpUpdateRecord.maxTargetLen
  method : req.method ≠ [] ∧ req.method.length ≤ IcpUpdateRecord.maxMethodLen
  ascii : isAscii req.method = true
  arg : req.arg.length ≤ IcpUpdateRecord.maxArgLen
  icCaller : ∀ who, req.icCaller = some who → who.bytes ≠ []
  reply : ∀ v, req.reply = some v → v.length ≤ Receipt.maxReturnData
  errorCode : ∀ code, req.errorCode = some code → StorableCode code

variable {req : IcpUpdateDispatchRequest} {now : Nat}

theorem Storable.accepted (h : req.Storable) : req.record.Accepted where
  target := h.target.1
  targetLen := h.target.2
  method := h.method.1
  methodLen := h.method.2
  ascii := h.ascii
  argLen := h.arg
  icCaller := by
    intro v hv
    obtain ⟨who, hwho, rfl⟩ := Option.map_eq_some_iff.mp hv
    exact ⟨h.icCaller who hwho, who.bounded⟩
  reply := h.reply
  errorCode := fun code hcode => (h.errorCode code hcode).bounded

theorem Storable.reloaded (h : req.Storable) : req.record.reloaded = some req.record := by
  refine (IcpUpdateRecord.reloaded_iff (by rw [h.accepted.encodeChecked]; rfl)).mpr ?_
  exact fun hempty => (h.errorCode "" hempty).nonempty rfl

-- every step after the first changes the outcome and the times alone
theorem Storable.outcome (h : req.Storable) {status : IcpUpdateRequestStatus}
    {reply : Option Bytes} {errorCode : Option String} {updatedAt callStartedAtTime : Nat}
    (hreply : ∀ v, reply = some v → v.length ≤ Receipt.maxReturnData)
    (herror : ∀ code, errorCode = some code → StorableCode code) :
    Storable { req with
      status := status
      reply := reply
      errorCode := errorCode
      updatedAt := updatedAt
      callStartedAtTime := callStartedAtTime } :=
  ⟨h.target, h.method, h.ascii, h.arg, h.icCaller, hreply, herror⟩

theorem storable_some {code : String} (h : StorableCode code) :
    ∀ other, some code = some other → StorableCode other :=
  fun _ hother => Option.some.inj hother ▸ h

theorem Storable.quarantine (h : req.Storable) : (req.quarantine now).Storable :=
  h.outcome (fun _ hnone => (by cases hnone)) (storable_some ⟨by decide, by decide⟩)

theorem Storable.markDispatching (h : req.Storable) : (req.markDispatching now).Storable :=
  h.outcome h.reply h.errorCode

theorem Storable.markUncertain (h : req.Storable) : (req.markUncertain now).Storable :=
  h.outcome h.reply (storable_some ⟨by decide, by decide⟩)

theorem Storable.repairStale (h : req.Storable) : (req.repairStale now).Storable := by
  rw [IcpUpdateDispatchRequest.repairStale]
  split_ifs
  · exact h.markUncertain
  · exact h

theorem Storable.recoverAfterUpgrade (h : req.Storable) :
    (req.recoverAfterUpgrade now).Storable := by
  rw [IcpUpdateDispatchRequest.recoverAfterUpgrade]
  split_ifs
  · exact h.markUncertain
  · exact h

end IcpUpdateDispatchRequest

structure StorableOutcome (applied : AppliedIcpUpdateDispatchOutcome) : Prop where
  reply : ∀ v, applied.reply = some v → v.length ≤ Receipt.maxReturnData
  errorCode : ∀ code, applied.errorCode = some code → code ≠ ""

theorem storable_response (response : IcpUpdateResponse) : StorableOutcome response.outcome := by
  cases response with
  | replied reply =>
      rw [IcpUpdateResponse.outcome, icpUpdateSuccessOutcome]
      split_ifs with hlong
      · exact ⟨fun _ hnone => (by cases hnone),
          fun _ hcode => Option.some.inj hcode ▸ (by decide)⟩
      · refine ⟨?_, fun _ hnone => (by cases hnone)⟩
        rintro v hv
        exact Option.some.inj hv ▸ not_lt.mp hlong
  | failed uncertain detail =>
      refine ⟨fun _ hnone => (by cases hnone), ?_⟩
      intro code hcode
      obtain rfl : "ic_update.call_failed:" ++ detail = code := Option.some.inj hcode
      exact fun hempty => absurd (String.append_eq_empty_iff.mp hempty).1 (by decide)

theorem IcpUpdateDispatchRequest.Storable.finalize {req : IcpUpdateDispatchRequest} {now : Nat}
    {applied : AppliedIcpUpdateDispatchOutcome} (happlied : StorableOutcome applied)
    (h : req.Storable) : (req.finalizeIcpUpdateDispatchAttempt now applied).Storable := by
  refine h.outcome happlied.reply ?_
  intro code hcode
  obtain ⟨given, hgiven, rfl⟩ := Option.map_eq_some_iff.mp hcode
  exact storable_clampErrorCode (happlied.errorCode given hgiven)

structure BoundedIntent (intent : Precompile.IcpUpdateIntent) : Prop where
  target : intent.target ≠ [] ∧ intent.target.length ≤ IcpUpdateRecord.maxTargetLen
  method : intent.method ≠ [] ∧ intent.method.length ≤ IcpUpdateRecord.maxMethodLen
  ascii : isAscii intent.method = true
  arg : intent.arg.length ≤ IcpUpdateRecord.maxArgLen

theorem boundedIntent_of_log {c : Crypto} {log : Receipt.LogEntry}
    {intent : Precompile.IcpUpdateIntent}
    (h : icpUpdateIntentFromLog c.keccak256 log = some intent) : BoundedIntent intent := by
  rw [icpUpdateIntentFromLog] at h
  split_ifs at h
  obtain ⟨⟨target, rest⟩, htarget, h⟩ := Option.bind_eq_some_iff.mp h
  obtain ⟨htargetLen, h⟩ := Option.ite_none_left_eq_some.mp h
  obtain ⟨⟨method, rest⟩, hmethod, h⟩ := Option.bind_eq_some_iff.mp h
  obtain ⟨hmethodText, h⟩ := Option.ite_none_left_eq_some.mp h
  obtain ⟨⟨argLen, rest⟩, -, h⟩ := Option.bind_eq_some_iff.mp h
  obtain ⟨hargLen, h⟩ := Option.ite_none_left_eq_some.mp h
  obtain ⟨⟨arg, rest⟩, harg, h⟩ := Option.bind_eq_some_iff.mp h
  obtain ⟨-, h⟩ := Option.ite_none_left_eq_some.mp h
  obtain rfl := Option.some.inj h
  simp only [not_or, Bool.not_eq_false, not_lt] at hmethodText htargetLen hargLen
  have hread : arg.length ≤ argLen.toNat := by
    rw [readExact] at harg
    split_ifs at harg
    obtain ⟨rfl, -⟩ := Prod.mk.inj (Option.some.inj harg)
    exact List.length_take_le ..
  exact ⟨⟨(readLenPrefixed_some htarget).1, htargetLen⟩,
    ⟨(readLenPrefixed_some hmethod).1, hmethodText.1⟩, hmethodText.2, hread.trans hargLen⟩

-- a synthetic transaction names the canister or user that sent it
def namedCalls : Set SubmitCall :=
  { call | match call with
    | .tx kind _ _ => kind = .ethSigned
    | .ic who _ _ => who.bytes ≠ [] }

theorem named_of_submitted {c : Crypto} {call : SubmitCall} {envelope : StoredTxBytes}
    {sender : Address} {nonce : Nat} (h : Submitted c call envelope sender nonce)
    (hcall : call ∈ namedCalls) (hkind : envelope.kind = .icSynthetic) :
    envelope.callerPrincipal.bytes ≠ [] := by
  cases h with
  | raw size decoded =>
      have hsigned : _ = TxKind.ethSigned := hcall
      exact absurd (hsigned.symm.trans hkind) (by decide)
  | ic size derived => exact hcall

theorem ChainStep.filed {env : Env T} {c c' : StableState (World T)} (h : ChainStep env c c')
    (hfiled : Filed env.crypto namedCalls c) : Filed env.crypto namedCalls c' := by
  cases h with
  | same => exact hfiled
  | credit db => exact hfiled
  | submitTx now raw who => exact (submission_submitTx ..).filed rfl hfiled
  | submitIcTx now tx named => exact (submission_submitIcTxInput ..).filed named hfiled
  | produce produced => exact hfiled.forgets (forgets_produceBlock produced)

def UpdatesStorable (s : IcpGatewayState T) : Prop :=
  s.icpUpdateRequests.Every IcpUpdateDispatchRequest.Storable

section

open IcpGatewayState

variable {env : Env T} {s t : IcpGatewayState T} {id : TxId} {now : Nat} {c : Crypto}

theorem UpdatesStorable.trimCompleted (h : UpdatesStorable s) (remaining : Nat)
    (ids : List (Nat × TxId)) : UpdatesStorable (trimCompleted remaining ids s) := by
  induction ids generalizing s remaining with
  | nil => exact h
  | cons e ids ih =>
      obtain ⟨updatedAt, id⟩ := e
      rw [IcpGatewayState.trimCompleted]
      split_ifs
      · exact h
      · have hremoved : UpdatesStorable (s.removeIcpUpdateRequest id) := Every.remove h id
        exact ih hremoved (remaining - 1)

theorem UpdatesStorable.trim (h : UpdatesStorable s) :
    UpdatesStorable s.trimIcpUpdateRequests := by
  rw [trimIcpUpdateRequests]
  split_ifs
  · exact h
  · exact h.trimCompleted _ _

theorem UpdatesStorable.recordLog {txId : TxId} {receipt : Receipt.ReceiptLike}
    {envelope : StoredTxBytes} {evmSender : Address} (h : UpdatesStorable s)
    (hnamed : envelope.kind = .icSynthetic → envelope.callerPrincipal.bytes ≠ [])
    (log : Receipt.LogEntry × Nat) :
    UpdatesStorable (recordIcpUpdateRequest c now txId receipt envelope evmSender s log) := by
  rw [recordIcpUpdateRequest]
  split
  · rename_i intent id hintent _
    have hbounded := boundedIntent_of_log hintent
    cases hknown : (s.icpUpdateRequests.get id).isSome with
    | true =>
        rw [if_pos rfl]
        exact h
    | false =>
        rw [if_neg Bool.false_ne_true]
        apply UpdatesStorable.trim
        refine Every.insert h id ⟨hbounded.target, hbounded.method, hbounded.ascii, hbounded.arg, ?_,
          fun _ hnone => (by cases hnone), fun _ hnone => by cases hnone⟩
        intro who hwho
        obtain ⟨hkind, hwho⟩ := Option.ite_none_right_eq_some.mp hwho
        exact Option.some.inj hwho ▸ hnamed hkind
  · exact h

theorem UpdatesStorable.recordLogs {txId : TxId} {receipt : Receipt.ReceiptLike}
    {envelope : StoredTxBytes} {evmSender : Address} (h : UpdatesStorable s)
    (hnamed : envelope.kind = .icSynthetic → envelope.callerPrincipal.bytes ≠ [])
    (logs : List (Receipt.LogEntry × Nat)) :
    UpdatesStorable (logs.foldl (recordIcpUpdateRequest c now txId receipt envelope evmSender) s) := by
  induction logs generalizing s with
  | nil => exact h
  | cons log logs ih => exact ih (h.recordLog hnamed log)

theorem UpdatesStorable.recordTx (h : UpdatesStorable s)
    (hfiled : Filed c namedCalls s.gateway.chain) (txId : TxId) :
    UpdatesStorable (recordIcpUpdateRequestsFromTx c now s txId) := by
  rw [recordIcpUpdateRequestsFromTx]
  split
  · rename_i receipt envelope _ henvelope
    split
    · exact h
    · refine h.recordLogs ?_ _
      obtain ⟨hget, -⟩ := Option.filter_eq_some_iff.mp henvelope
      obtain ⟨-, call, hcall, sender, nonce, hsubmitted⟩ := hfiled txId envelope hget
      exact named_of_submitted hsubmitted hcall
  · exact h

theorem UpdatesStorable.recordBlock (h : UpdatesStorable s)
    (hfiled : Filed c namedCalls s.gateway.chain) (txIds : List TxId) :
    UpdatesStorable (recordIcpUpdateRequestsFromBlock c now txIds s) := by
  rw [recordIcpUpdateRequestsFromBlock]
  induction txIds generalizing s with
  | nil => exact h
  | cons txId txIds ih =>
      refine ih (h.recordTx hfiled txId) ?_
      rw [(records_recordIcpUpdateRequestsFromTx s txId).gateway]
      exact hfiled

theorem UpdatesStorable.tick (h : UpdatesStorable s)
    (hdone : icpUpdateDispatchTick now s = some t) : UpdatesStorable t := by
  rw [icpUpdateDispatchTick] at hdone
  split at hdone
  · cases hdone
  · obtain rfl := Option.some.inj hdone
    exact h
  · rename_i id rest _
    dsimp only at hdone
    split at hdone
    · obtain rfl := Option.some.inj hdone
      exact h
    · rename_i req hreq
      split_ifs at hdone
      · obtain rfl := Option.some.inj hdone
        exact Every.insert h id (h id req hreq).quarantine
      · obtain rfl := Option.some.inj hdone
        have hmarked : (s.icpUpdateRequests.insert id (req.markDispatching now)).Every
            IcpUpdateDispatchRequest.Storable := Every.insert h id (h id req hreq).markDispatching
        rw [dispatchIcpUpdateRequestInternal]
        split_ifs
        · refine Every.modify hmarked id (fun _ hstored => hstored.finalize ⟨?_, ?_⟩)
          · exact fun _ hnone => (by cases hnone)
          · exact fun _ hcode => Option.some.inj hcode ▸ (by decide)
        · exact hmarked

theorem UpdatesStorable.follow {a : Action} {gateway : GatewayState T} (h : UpdatesStorable s)
    (hfiled : Filed env.crypto namedCalls gateway.chain) :
    UpdatesStorable (s.followGateway env gateway a) := by
  have hfollowed : UpdatesStorable { s with gateway := gateway } := h
  cases a with
  | miningTick now call => exact hfollowed.recordBlock hfiled _
  | repairStaleOperations now => exact Every.map hfollowed (fun _ hreq => hreq.repairStale)
  | postUpgrade now config => exact Every.map hfollowed (fun _ hreq => hreq.recoverAfterUpgrade)
  | submitWrapRequest | submitNativeDeposit | wrapWorkerTick | resumeWrap | recoverFailedWrap
  | retryNativeDeposit | setFeePolicy | unwrapDispatchTick | resumeDispatch | retryUnwrapDispatch
  | dispatchUnwrapRequest | submitTx | submitIcTx | ledgerExecutes | ledgerFee | ledgerClock
  | ledgerReceives => exact hfollowed

end

theorem icpRun_updatesStorable {env : Env T} {world : World T} {config : WrapConfig}
    {ledgers : Principal → DedupLedger.Ledger Principal} {allowlist : List Bytes}
    {s : IcpGatewayState T} (run : IcpRun env (.init world config ledgers allowlist) s) :
    Filed env.crypto namedCalls s.gateway.chain ∧ UpdatesStorable s := by
  induction run with
  | start => exact ⟨filed_init namedCalls world, every_empty _⟩
  | @step s t action _ hdone ih =>
      obtain ⟨hfiled, hstorable⟩ := ih
      cases action with
      | gateway a =>
          obtain ⟨gateway, hgateway, rfl⟩ := Option.map_eq_some_iff.mp hdone
          have hchain := (perform_chain hgateway).filed hfiled
          rw [gateway_followGateway]
          exact ⟨hchain, hstorable.follow hchain⟩
      | icpUpdateDispatchTick now =>
          rw [gateway_icpUpdateDispatchTick hdone]
          exact ⟨hfiled, hstorable.tick hdone⟩
      | resumeIcpUpdate now i response =>
          obtain ⟨id, -, rfl⟩ := Option.map_eq_some_iff.mp hdone
          exact ⟨hfiled, Every.modify hstorable id
            (fun _ hreq => hreq.finalize (storable_response response))⟩
      | setIcpUpdatePrecompileAllowlist allowlist =>
          obtain rfl := Option.some.inj hdone
          exact ⟨hfiled, hstorable⟩

theorem requests_reload_iff {env : Env T} {world : World T} {config : WrapConfig}
    {ledgers : Principal → DedupLedger.Ledger Principal} {allowlist : List Bytes}
    {s : GatewayState T} {u : IcpGatewayState T}
    (run : Run env (fun _ a => a.Named) (.init world config ledgers) s)
    (updates : IcpRun env (.init world config ledgers allowlist) u) :
    (∀ r : UnwrapRecord, r.encodeChecked.isSome →
      (r.reloaded = some r ↔ r.ledgerTxId ≠ some [] ∧ r.errorCode ≠ some "")) ∧
    (∀ r : IcpUpdateRecord, r.encodeChecked.isSome →
      (r.reloaded = some r ↔ r.errorCode ≠ some "")) ∧
    (∀ id req, s.unwrapRequests.get id = some req →
      req.record.encodeChecked.isSome ∧ req.record.reloaded = some req.record) ∧
    ∀ id req, u.icpUpdateRequests.get id = some req →
      req.record.encodeChecked.isSome ∧ req.record.reloaded = some req.record := by
  refine ⟨fun r => UnwrapRecord.reloaded_iff, fun r => IcpUpdateRecord.reloaded_iff, ?_, ?_⟩
  · intro id req hreq
    have hstorable := run_unwrapsStorable run id req hreq
    exact ⟨by rw [hstorable.accepted.encodeChecked]; rfl, hstorable.reloaded⟩
  · intro id req hreq
    have hstorable := (icpRun_updatesStorable updates).2 id req hreq
    exact ⟨by rw [hstorable.accepted.encodeChecked]; rfl, hstorable.reloaded⟩

def orderedUnwrap : List Action :=
  [.dispatchUnwrapRequest 1 (zeroArr 32) [60] 1000 [70], .unwrapDispatchTick 1,
    .ledgerReceives 1 (samplePrincipalOf 60).principal 5000, .ledgerExecutes 1 0 none,
    .resumeDispatch 1 0 (.ledger .delivered)]

theorem orderedUnwrap_named (a : Action) (ha : a ∈ orderedUnwrap) : a.Named := by
  simp only [orderedUnwrap, List.mem_cons, List.not_mem_nil, or_false] at ha
  rcases ha with rfl | rfl | rfl | rfl | rfl
  · exact ⟨⟨by decide, by decide⟩, by decide, by decide⟩
  · trivial
  · trivial
  · trivial
  · trivial

def orderedRecord (ledgerTxId : Option Bytes) (errorCode : Option String) : UnwrapRecord where
  assetId := [60]
  amount := zeroArr 32
  recipient := [70]
  status := .dispatched
  ledgerTxId := ledgerTxId
  errorCode := errorCode
  updatedAt := 2
  transferCreatedAtTime := 1

theorem requests_reload_run :
    ∃ (s : GatewayState Unit) (u : IcpGatewayState Unit),
      (∃ req, s.unwrapRequests.get (zeroArr 32) = some req ∧ req.status = .dispatched ∧
        req.record.reloaded = some req.record) ∧
      u.icpUpdateCalls.length = 1 ∧
      (∀ id req, u.icpUpdateRequests.get id = some req →
        req.record.encodeChecked.isSome ∧ req.record.reloaded = some req.record) ∧
      ((orderedRecord (some [3]) none).reloaded = some (orderedRecord (some [3]) none) ↔
        (some [3] : Option Bytes) ≠ some [] ∧ (none : Option String) ≠ some "") := by
  obtain ⟨s, hrun, hfound⟩ := run_of_any intentGateway orderedUnwrap
    (.init emptyWorld sampleConfig (fun _ => sampleLedger))
    (fun s => (s.unwrapRequests.get (zeroArr 32)).any (fun req : UnwrapDispatchRequest =>
      decide (req.status = .dispatched)))
    (by decide) (fun a ha _ => orderedUnwrap_named a ha) (by decide +kernel)
  have hcalled : (performIcpAll intentGateway intentActions intentStart).any (fun u =>
      decide (u.icpUpdateCalls.length = 1)) = true := by decide +kernel
  obtain ⟨u, hu, hone⟩ := (Option.any_eq_true _ _).mp hcalled
  obtain ⟨req, hreq, hstatus⟩ := (Option.any_eq_true _ _).mp hfound
  obtain ⟨hunwrap, -, hrequests, hupdates⟩ :=
    requests_reload_iff hrun (icpRun_of_performIcpAll .start hu)
  exact ⟨s, u, ⟨req, hreq, of_decide_eq_true hstatus, (hrequests _ req hreq).2⟩,
    of_decide_eq_true hone, hupdates, hunwrap (orderedRecord (some [3]) none) (by decide +kernel)⟩

theorem empty_options_lost :
    (orderedRecord (some []) none).encodeChecked.isSome ∧
      (orderedRecord (some []) none).reloaded = some .decodeFailurePlaceholder ∧
      (orderedRecord none (some "")).encodeChecked.isSome ∧
      (orderedRecord none (some "")).reloaded = some .decodeFailurePlaceholder ∧
      orderedRecord (some []) none ≠ .decodeFailurePlaceholder ∧
      orderedRecord none (some "") ≠ .decodeFailurePlaceholder := by
  decide +kernel

end Kasane.Gateway
