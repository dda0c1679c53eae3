import Kasane.Gateway.UnwrapFrame

namespace Kasane.Gateway

open BigEndian Codec Word Chain Exec
open DedupLedger (Transfer Ledger Deduped Executes)

variable {T : Type}

namespace UnwrapDispatchRequest

structure Renews (old new : UnwrapDispatchRequest) : Prop where
  assetId : new.assetId = old.assetId
  amount : new.amount = old.amount
  recipient : new.recipient = old.recipient
  createdAt : old.transferCreatedAtTime ≠ 0 → new.transferCreatedAtTime = old.transferCreatedAtTime

namespace Renews

variable {old mid new : UnwrapDispatchRequest}

theorem refl (req : UnwrapDispatchRequest) : Renews req req := ⟨rfl, rfl, rfl, fun _ => rfl⟩

theorem trans (h : Renews old mid) (h' : Renews mid new) : Renews old new := by
  refine ⟨h'.assetId.trans h.assetId, h'.amount.trans h.amount, h'.recipient.trans h.recipient, ?_⟩
  intro hset
  have hmid := h.createdAt hset
  rw [h'.createdAt (by rw [hmid]; exact hset), hmid]

theorem native (h : Renews old new) :
    new.isNativeWithdrawDispatchRequest = old.isNativeWithdrawDispatchRequest := by
  rw [isNativeWithdrawDispatchRequest, h.assetId]
  rfl

theorem createdAt_of_set (req : UnwrapDispatchRequest) (now : Nat)
    (hset : req.transferCreatedAtTime ≠ 0) : req.createdAt now = req.transferCreatedAtTime :=
  if_neg hset

theorem markDispatching (req : UnwrapDispatchRequest) (now : Nat) :
    Renews req (req.markDispatching now) :=
  ⟨rfl, rfl, rfl, createdAt_of_set req now⟩

theorem quarantine (req : UnwrapDispatchRequest) (now : Nat) : Renews req (req.quarantine now) :=
  ⟨rfl, rfl, rfl, fun _ => rfl⟩

theorem finalize (req : UnwrapDispatchRequest) (now : Nat) (applied : Except String LedgerTxId) :
    Renews req (req.finalizeUnwrapDispatchAttempt now applied) := by
  cases applied with
  | error code => exact ⟨rfl, rfl, rfl, fun _ => rfl⟩
  | ok ledgerTxId => exact ⟨rfl, rfl, rfl, fun _ => rfl⟩

theorem quarantineDecodeFailed (req : UnwrapDispatchRequest) (now : Nat) :
    Renews req (req.quarantineDecodeFailed now) := by
  rw [UnwrapDispatchRequest.quarantineDecodeFailed]
  split_ifs
  · exact quarantine req now
  · exact refl req

theorem retry (req : UnwrapDispatchRequest) (now : Nat) : Renews req (req.retry now) :=
  ⟨rfl, rfl, rfl, fun _ => rfl⟩

theorem repairStale (req : UnwrapDispatchRequest) (now : Nat) : Renews req (req.repairStale now) := by
  rw [UnwrapDispatchRequest.repairStale]
  split_ifs
  · exact ⟨rfl, rfl, rfl, createdAt_of_set req now⟩
  · exact refl req

theorem recoverAfterUpgrade (req : UnwrapDispatchRequest) (now : Nat) :
    Renews req (req.recoverAfterUpgrade now) := by
  rw [UnwrapDispatchRequest.recoverAfterUpgrade]
  split_ifs
  · exact ⟨rfl, rfl, rfl, fun _ => rfl⟩
  · exact refl req

end Renews

theorem markDispatching_set {now : Nat} (hnow : 0 < now) (req : UnwrapDispatchRequest) :
    (req.markDispatching now).transferCreatedAtTime ≠ 0 := by
  change req.createdAt now ≠ 0
  rw [createdAt]
  split_ifs with hzero
  · exact Nat.ne_of_gt hnow
  · exact hzero

end UnwrapDispatchRequest

open UnwrapDispatchRequest (Renews)

structure RenewsPayouts (s t : GatewayState T) : Prop where
  requests : ∀ id old, s.unwrapRequests.get id = some old →
    ∃ new, t.unwrapRequests.get id = some new ∧ Renews old new
  tasks : ∀ id ledger recipient req, (id, DispatchTask.fee ledger recipient req) ∈ t.dispatchTasks →
    (id, DispatchTask.fee ledger recipient req) ∈ s.dispatchTasks
  ledgers : t.ledgers = s.ledgers
  calls : t.calls = s.calls

section

variable {s t u : GatewayState T} {id : TxId}

theorem RenewsPayouts.same (hrequests : t.unwrapRequests = s.unwrapRequests)
    (htasks : t.dispatchTasks = s.dispatchTasks) (hledgers : t.ledgers = s.ledgers)
    (hcalls : t.calls = s.calls) : RenewsPayouts s t := by
  refine ⟨?_, ?_, hledgers, hcalls⟩
  · intro id old hold
    exact ⟨old, by rw [hrequests, hold], .refl old⟩
  · intro id ledger recipient req htask
    rw [← htasks]
    exact htask

theorem RenewsPayouts.refl (s : GatewayState T) : RenewsPayouts s s := .same rfl rfl rfl rfl

theorem RenewsPayouts.trans (h : RenewsPayouts s t) (h' : RenewsPayouts t u) :
    RenewsPayouts s u := by
  refine ⟨?_, ?_, h'.ledgers.trans h.ledgers, h'.calls.trans h.calls⟩
  · intro id old hold
    obtain ⟨mid, hmid, hrenews⟩ := h.requests id old hold
    obtain ⟨new, hnew, hrenews'⟩ := h'.requests id mid hmid
    exact ⟨new, hnew, hrenews.trans hrenews'⟩
  · intro id ledger recipient req htask
    exact h.tasks id ledger recipient req (h'.tasks id ledger recipient req htask)

theorem RenewsPayouts.map {f : UnwrapDispatchRequest → UnwrapDispatchRequest}
    (hf : ∀ req, Renews req (f req)) (hrequests : t.unwrapRequests = s.unwrapRequests.map f)
    (htasks : t.dispatchTasks ⊆ s.dispatchTasks) (hledgers : t.ledgers = s.ledgers)
    (hcalls : t.calls = s.calls) : RenewsPayouts s t := by
  refine ⟨?_, fun _ _ _ _ htask => htasks htask, hledgers, hcalls⟩
  intro id old hold
  refine ⟨f old, ?_, hf old⟩
  rw [hrequests, OrdMap.get_map, hold, Option.map_some]

theorem RenewsPayouts.insert {old new : UnwrapDispatchRequest}
    (hold : s.unwrapRequests.get id = some old) (hrenews : Renews old new)
    (hrequests : t.unwrapRequests = s.unwrapRequests.insert id new)
    (htasks : t.dispatchTasks ⊆ s.dispatchTasks) (hledgers : t.ledgers = s.ledgers)
    (hcalls : t.calls = s.calls) : RenewsPayouts s t := by
  refine ⟨?_, fun _ _ _ _ htask => htasks htask, hledgers, hcalls⟩
  intro other found hfound
  rw [hrequests, OrdMap.get_insert]
  split_ifs with hother
  · subst hother
    obtain rfl := Option.some.inj (hold.symm.trans hfound)
    exact ⟨new, rfl, hrenews⟩
  · exact ⟨found, hfound, .refl found⟩

theorem renews_finishDispatch (s : GatewayState T) (id : TxId) (now : Nat)
    (applied : Except String LedgerTxId) : RenewsPayouts s (s.finishDispatch id now applied) := by
  refine ⟨?_, fun _ _ _ _ htask => htask, rfl, rfl⟩
  intro other old hold
  have hget : (s.finishDispatch id now applied).unwrapRequests = s.unwrapRequests.modify id
      (UnwrapDispatchRequest.finalizeUnwrapDispatchAttempt now applied) := rfl
  rw [hget]
  by_cases hother : other = id
  · subst hother
    rw [OrdMap.get_modify_self, hold]
    exact ⟨_, rfl, .finalize old now applied⟩
  · rw [OrdMap.get_modify_of_ne _ _ hother]
    exact ⟨old, hold, .refl old⟩

end

namespace GatewayState

variable {env : Env T} {s t : GatewayState T} {id : TxId} {now : Nat}

theorem renews_insertUnwrapDispatchRequest {req : UnwrapDispatchRequest} :
    RenewsPayouts s (s.insertUnwrapDispatchRequest id req) := by
  rw [insertUnwrapDispatchRequest]
  split_ifs with hknown
  · exact .refl _
  · refine ⟨?_, fun _ _ _ _ htask => htask, rfl, rfl⟩
    intro other found hfound
    have hne : other ≠ id := by
      rintro rfl
      exact hknown (by rw [hfound]; rfl)
    exact ⟨found, ((OrdMap.get_insert ..).trans (if_neg hne)).trans hfound, .refl found⟩

theorem renews_recordUnwrapRequestsFromBlock (crypto : Crypto) (now : Nat) (txIds : List TxId) :
    RenewsPayouts s (s.recordUnwrapRequestsFromBlock crypto now txIds) := by
  have hlog (txId : TxId) (u : GatewayState T) (log : Receipt.LogEntry × Nat) :
      RenewsPayouts u (recordUnwrapRequest crypto now txId u log) := by
    rw [recordUnwrapRequest]
    split
    · exact renews_insertUnwrapDispatchRequest
    · exact .refl _
  have hlogs (txId : TxId) (logs : List (Receipt.LogEntry × Nat)) (u : GatewayState T) :
      RenewsPayouts u (logs.foldl (recordUnwrapRequest crypto now txId) u) := by
    induction logs generalizing u with
    | nil => exact .refl _
    | cons log logs ih => exact (hlog txId u log).trans (ih _)
  have htx (u : GatewayState T) (txId : TxId) :
      RenewsPayouts u (recordUnwrapRequestsFromTx crypto now u txId) := by
    rw [recordUnwrapRequestsFromTx]
    cases getReceipt u.chain txId with
    | none => exact .refl _
    | some receipt => exact hlogs txId _ u
  induction txIds generalizing s with
  | nil => exact .refl _
  | cons txId txIds ih => exact (htx s txId).trans ih

theorem renews_miningTick {call : CallEnv} (h : miningTick env call now s = some t) :
    RenewsPayouts s t := by
  rw [miningTick] at h
  split at h
  · exact absurd h (by simp)
  · obtain rfl := Option.some.inj h
    exact .same rfl rfl rfl rfl
  · rename_i outcome chain _
    obtain rfl := Option.some.inj h
    have hproduced : RenewsPayouts s { s with chain := chain } := .same rfl rfl rfl rfl
    have hrecorded := hproduced.trans
      (renews_recordUnwrapRequestsFromBlock env.crypto now outcome.block.txIds)
    exact hrecorded.trans (.same rfl rfl rfl rfl)

end GatewayState

open GatewayState

structure Asks (t : GatewayState T) (id : TxId) (recipient : StoredPrincipal)
    (req : UnwrapDispatchRequest) : Prop where
  found : t.unwrapRequests.get id = some req
  created : req.transferCreatedAtTime ≠ 0
  native : req.isNativeWithdrawDispatchRequest = true
  addressed : StoredPrincipal.ofBytes req.recipient = some recipient

structure Pays (env : Env T) (id : TxId) (req : UnwrapDispatchRequest) (call : LedgerCall) :
    Prop where
  created : req.transferCreatedAtTime ≠ 0
  transfer : ∃ recipient, StoredPrincipal.ofBytes req.recipient = some recipient ∧
    call.transfer = icrc1Transfer env recipient call.transfer.amount
      (requestMemo env.crypto id .unwrap) req.transferCreatedAtTime
  token : req.isNativeWithdrawDispatchRequest = false → call.transfer.amount = req.amount ∧
    ∃ ledger, StoredPrincipal.ofBytes req.assetId = some ledger ∧ call.ledger = ledger.principal

theorem Pays.renew {env : Env T} {id : TxId} {old new : UnwrapDispatchRequest} {call : LedgerCall}
    (h : Pays env id old call) (hrenews : Renews old new) : Pays env id new call := by
  have hcreated := hrenews.createdAt h.created
  refine ⟨?_, ?_, ?_⟩
  · rw [hcreated]
    exact h.created
  · rw [hrenews.recipient, hcreated]
    exact h.transfer
  · intro htoken
    rw [hrenews.native] at htoken
    rw [hrenews.amount, hrenews.assetId]
    exact h.token htoken

theorem Pays.prior {env : Env T} {id : TxId} {req : UnwrapDispatchRequest} {old new : LedgerCall}
    (h : Pays env id req old) (hprior : new.Prior old) : Pays env id req new := by
  refine ⟨h.created, ?_, ?_⟩
  · rw [hprior.transfer]
    exact h.transfer
  · rw [hprior.transfer, hprior.ledger]
    exact h.token

inductive SendsPayout (env : Env T) (id : TxId) (a : Action) (s t : GatewayState T)
    (call : LedgerCall) : Prop
  | token {req : UnwrapDispatchRequest} (found : t.unwrapRequests.get id = some req)
      (sound : req.shouldSkipDispatchUnwrapRequest = false)
      (token : req.isNativeWithdrawDispatchRequest = false) (pays : Pays env id req call)
  | native {now i : Nat} {ledger recipient : StoredPrincipal} {req : UnwrapDispatchRequest}
      {fee : BitVec 128} {amount : Nat} (action : a = .resumeDispatch now i (.fee (.ok fee)))
      (resumed : s.dispatchTasks[i]? = some (id, .fee ledger recipient req))
      (covered : nativeWithdrawGrossTransferAmount req.amount fee.toNat = .ok amount)
      (sent : call = ⟨ledger.principal, icrc1Transfer env recipient amount
        (requestMemo env.crypto id .unwrap) req.transferCreatedAtTime, .payout id, none⟩)

structure PayoutStep (env : Env T) (id : TxId) (a : Action) (s t : GatewayState T) : Prop where
  record : ∀ old, s.unwrapRequests.get id = some old →
    ∃ new, t.unwrapRequests.get id = some new ∧ Renews old new
  queries : ∀ ledger recipient req, (id, DispatchTask.fee ledger recipient req) ∈ t.dispatchTasks →
    (id, DispatchTask.fee ledger recipient req) ∈ s.dispatchTasks ∨ Asks t id recipient req
  sent : (∀ call ∈ t.calls, call.origin = .payout id → ∃ old ∈ s.calls, call.Prior old) ∨
    ∃ new, SendsPayout env id a s t new ∧ ∀ call ∈ t.calls, call.origin = .payout id →
      (∃ old ∈ s.calls, call.Prior old) ∨ call = new
  origins : ∃ sent, t.calls.map (fun call => call.origin) = s.calls.map (fun call => call.origin) ++ sent ∧
    (CallOrigin.payout id ∈ sent → ∃ new, SendsPayout env id a s t new)
  deduped : Deduped s.ledgers s.calls → Deduped t.ledgers t.calls

section

variable {env : Env T} {s t : GatewayState T} {id other : TxId} {now : Nat} {a : Action}

theorem prior_of_mem {call : LedgerCall} (h : call ∈ s.calls) : ∃ old ∈ s.calls, call.Prior old :=
  ⟨call, h, .refl call⟩

theorem SparesUnwraps.payoutStep (h : SparesUnwraps s t) (id : TxId) : PayoutStep env id a s t := by
  obtain ⟨sent, hsent, hnew⟩ := h.calls
  refine ⟨?_, ?_, Or.inl ?_, ⟨sent.map (fun call => call.origin), ?_, ?_⟩, ?_⟩
  · intro old hold
    exact ⟨old, by rw [h.requests, hold], .refl old⟩
  · intro ledger recipient req htask
    rw [h.tasks] at htask
    exact Or.inl htask
  · intro call hcall horigin
    rw [hsent] at hcall
    rcases List.mem_append.mp hcall with hcall | hcall
    · exact prior_of_mem hcall
    · exact absurd horigin ((hnew call hcall).2 id)
  · rw [hsent, List.map_append]
  · intro hpayout
    obtain ⟨call, hcall, horigin⟩ := List.mem_map.mp hpayout
    exact absurd horigin ((hnew call hcall).2 id)
  · intro hdeduped
    rw [h.ledgers, hsent]
    exact hdeduped.appends (fun call hcall => (hnew call hcall).1)

theorem RenewsPayouts.payoutStep (h : RenewsPayouts s t) (id : TxId) : PayoutStep env id a s t := by
  refine ⟨h.requests id, ?_, Or.inl ?_, ⟨[], ?_, ?_⟩, ?_⟩
  · intro ledger recipient req htask
    exact Or.inl (h.tasks id ledger recipient req htask)
  · intro call hcall _
    rw [h.calls] at hcall
    exact prior_of_mem hcall
  · rw [h.calls, List.append_nil]
  · intro hpayout
    exact absurd hpayout List.not_mem_nil
  · intro hdeduped
    rw [h.ledgers, h.calls]
    exact hdeduped

theorem RenewsPayouts.sendPayout (h : RenewsPayouts s t) {ledger recipient : StoredPrincipal}
    {amount : Nat} {req : UnwrapDispatchRequest}
    (hsends : SendsPayout env other a s (t.sendPayout env other ledger recipient amount req)
      ⟨ledger.principal, icrc1Transfer env recipient amount (requestMemo env.crypto other .unwrap)
        req.transferCreatedAtTime, .payout other, none⟩) (id : TxId) :
    PayoutStep env id a s (t.sendPayout env other ledger recipient amount req) := by
  refine ⟨h.requests id, ?_, ?_, ⟨[.payout other], ?_, ?_⟩, ?_⟩
  · intro ledger' recipient' req' htask
    rcases List.mem_append.mp htask with htask | htask
    · exact Or.inl (h.tasks id ledger' recipient' req' htask)
    · have heq := List.mem_singleton.mp htask
      exact DispatchTask.noConfusion (Prod.mk.inj heq).2
  · have hcases (call : LedgerCall)
        (hcall : call ∈ (t.sendPayout env other ledger recipient amount req).calls) :
        (∃ old ∈ s.calls, call.Prior old) ∨ call = ⟨ledger.principal, icrc1Transfer env recipient
          amount (requestMemo env.crypto other .unwrap) req.transferCreatedAtTime, .payout other,
            none⟩ := by
      rcases List.mem_append.mp hcall with hcall | hcall
      · rw [h.calls] at hcall
        exact Or.inl (prior_of_mem hcall)
      · exact Or.inr (List.mem_singleton.mp hcall)
    by_cases hother : other = id
    · subst hother
      exact Or.inr ⟨_, hsends, fun call hcall _ => hcases call hcall⟩
    · refine Or.inl ?_
      intro call hcall horigin
      rcases hcases call hcall with hold | rfl
      · exact hold
      · exact absurd (CallOrigin.payout.inj horigin) hother
  · rw [← h.calls]
    exact List.map_append
  · intro hpayout
    obtain rfl := CallOrigin.payout.inj (List.mem_singleton.mp hpayout)
    exact ⟨_, hsends⟩
  · intro hdeduped
    rw [← h.ledgers, ← h.calls] at hdeduped
    exact hdeduped.append rfl

theorem RenewsPayouts.ask (h : RenewsPayouts s t) {ledger recipient : StoredPrincipal}
    {req : UnwrapDispatchRequest} (hasks : Asks t other recipient req) (id : TxId) :
    PayoutStep env id a s (t.suspendDispatch other (.fee ledger recipient req)) := by
  refine ⟨h.requests id, ?_, Or.inl ?_, ⟨[], ?_, ?_⟩, ?_⟩
  · intro ledger' recipient' req' htask
    rcases List.mem_append.mp htask with htask | htask
    · exact Or.inl (h.tasks id ledger' recipient' req' htask)
    · obtain ⟨rfl, heq⟩ := Prod.mk.inj (List.mem_singleton.mp htask)
      obtain ⟨-, rfl, rfl⟩ := DispatchTask.fee.inj heq
      exact Or.inr ⟨hasks.found, hasks.created, hasks.native, hasks.addressed⟩
  · intro call hcall _
    have hsame : call ∈ t.calls := hcall
    rw [h.calls] at hsame
    exact prior_of_mem hsame
  · rw [← h.calls, List.append_nil]
    rfl
  · intro hpayout
    exact absurd hpayout List.not_mem_nil
  · intro hdeduped
    rw [← h.ledgers, ← h.calls] at hdeduped
    exact hdeduped

theorem RenewsPayouts.dispatch (h : RenewsPayouts s t) {req : UnwrapDispatchRequest}
    (hfound : t.unwrapRequests.get other = some req) (hcreated : req.transferCreatedAtTime ≠ 0)
    (hsound : req.shouldSkipDispatchUnwrapRequest = false) (id : TxId) : PayoutStep env id a s (t.dispatchUnwrapRequestInternal env other now req) := by
  rw [dispatchUnwrapRequestInternal]
  cases hledger : t.dispatchLedger req with
  | error code => exact (h.trans (renews_finishDispatch t other now _)).payoutStep id
  | ok ledger =>
      cases haddressed : StoredPrincipal.ofBytes req.recipient with
      | none => exact (h.trans (renews_finishDispatch t other now _)).payoutStep id
      | some recipient =>
          dsimp only
          split_ifs with hnative
          · exact h.ask ⟨hfound, hcreated, hnative, haddressed⟩ id
          · have htoken := Bool.eq_false_of_not_eq_true hnative
            refine h.sendPayout
              (.token hfound hsound htoken ⟨hcreated, ⟨recipient, haddressed, rfl⟩, ?_⟩) id
            intro _
            refine ⟨rfl, ledger, ?_, rfl⟩
            rw [dispatchLedger, if_neg hnative] at hledger
            cases hasset : StoredPrincipal.ofBytes req.assetId with
            | none =>
                rw [hasset] at hledger
                exact absurd hledger (by simp)
            | some found =>
                rw [hasset] at hledger
                rw [Except.ok.inj hledger]

theorem payouts_unwrapDispatchTick (hnow : 0 < now) (h : unwrapDispatchTick env now s = some t)
    (id : TxId) : PayoutStep env id a s t := by
  rw [unwrapDispatchTick] at h
  split at h
  · exact absurd h (by simp)
  · obtain rfl := Option.some.inj h
    apply RenewsPayouts.payoutStep
    exact .same rfl rfl rfl rfl
  · rename_i head rest _
    dsimp only at h
    cases hget : s.unwrapRequests.get head with
    | none =>
        rw [hget] at h
        obtain rfl := Option.some.inj h
        apply RenewsPayouts.payoutStep
        exact .same rfl rfl rfl rfl
    | some req =>
        rw [hget] at h
        dsimp only at h
        split_ifs at h with hskip
        · obtain rfl := Option.some.inj h
          apply RenewsPayouts.payoutStep
          exact .insert hget (.quarantine req now) rfl (List.Subset.refl _) rfl rfl
        · obtain rfl := Option.some.inj h
          have hmarked : RenewsPayouts s { s with
              unwrapDispatchQueue := rest
              unwrapRequests := s.unwrapRequests.insert head (req.markDispatching now) } :=
            .insert hget (.markDispatching req now) rfl (List.Subset.refl _) rfl rfl
          refine hmarked.dispatch ?_ (UnwrapDispatchRequest.markDispatching_set hnow req)
            (Bool.eq_false_of_not_eq_true hskip) id
          exact (OrdMap.get_insert ..).trans (if_pos rfl)

theorem payouts_resumeDispatch {i : Nat} {reply : DispatchReply}
    (h : resumeDispatch env now i reply s = some t) (id : TxId) :
    PayoutStep env id (.resumeDispatch now i reply) s t := by
  rw [resumeDispatch] at h
  cases htask : s.dispatchTasks[i]? with
  | none =>
      rw [htask] at h
      exact absurd h (by simp)
  | some entry =>
      obtain ⟨owner, task⟩ := entry
      rw [htask] at h
      dsimp only at h
      have hresumed : RenewsPayouts s { s with dispatchTasks := s.dispatchTasks.eraseIdx i } :=
        ⟨fun _ old hold => ⟨old, hold, .refl old⟩, fun _ _ _ _ hkept => List.mem_of_mem_eraseIdx hkept,
          rfl, rfl⟩
      cases task <;> cases reply <;> simp only [resumeDispatchTask, reduceCtorEq] at h
      · rename_i ledger recipient req fee
        obtain rfl := Option.some.inj h
        cases fee with
        | error code => exact (hresumed.trans (renews_finishDispatch _ owner now _)).payoutStep id
        | ok fee =>
            rw [finishDispatchFee]
            cases hamount : nativeWithdrawGrossTransferAmount req.amount fee.toNat with
            | error code => exact (hresumed.trans (renews_finishDispatch _ owner now _)).payoutStep id
            | ok amount => exact hresumed.sendPayout (.native rfl htask hamount rfl) id
      · obtain ⟨applied, -, rfl⟩ := Option.map_eq_some_iff.mp h
        exact (hresumed.trans (renews_finishDispatch _ owner now applied)).payoutStep id

theorem payouts_retryUnwrapDispatch (h : retryUnwrapDispatch now other s = some t) (id : TxId) :
    PayoutStep env id a s t := by
  simp only [retryUnwrapDispatch, Option.bind_eq_bind, Option.bind_none] at h
  obtain ⟨req, hreq, h⟩ := Option.bind_eq_some_iff.mp h
  obtain ⟨-, h⟩ := Option.ite_none_left_eq_some.mp h
  obtain rfl := Option.some.inj h
  apply RenewsPayouts.payoutStep
  exact .insert hreq (.retry req now) rfl (List.Subset.refl _) rfl rfl

theorem payouts_repairStaleOperations (s : GatewayState T) (id : TxId) :
    PayoutStep env id a s (s.repairStaleOperations now) := by
  apply RenewsPayouts.payoutStep
  exact .map (fun req => .repairStale req now) rfl (List.Subset.refl _) rfl rfl

theorem payouts_postUpgrade (s : GatewayState T) (config : Option WrapConfig) (id : TxId) :
    PayoutStep env id a s (s.postUpgrade now config) := by
  have hledgers : (s.postUpgrade now config).ledgers = s.ledgers := by
    cases config <;> rfl
  have hcalls : (s.postUpgrade now config).calls = s.calls := by
    cases config <;> rfl
  have hquarantined : RenewsPayouts s (s.quarantineDecodeFailedUnwrapRequests now) :=
    .map (fun req => .quarantineDecodeFailed req now) rfl (List.Subset.refl _) rfl rfl
  apply RenewsPayouts.payoutStep
  apply hquarantined.trans
  refine .map (fun req => .recoverAfterUpgrade req now) ?_ (List.nil_subset _) hledgers hcalls
  cases config <;> rfl

theorem payouts_ledgerExecutes {i : Nat} {refusal : Option String}
    (h : ledgerExecutes env i refusal s = some t) (id : TxId) : PayoutStep env id a s t := by
  obtain ⟨⟨ledgers, calls⟩, hexecute, rfl⟩ := Option.map_eq_some_iff.mp h
  obtain ⟨call, outcome, l, hx⟩ := DedupLedger.execute_some hexecute
  refine ⟨fun old hold => ⟨old, hold, .refl old⟩, fun _ _ _ htask => Or.inl htask, Or.inl ?_,
    ⟨[], ?_, fun hpayout => absurd hpayout List.not_mem_nil⟩, ?_⟩
  · intro new hnew _
    obtain ⟨j, hj⟩ := List.mem_iff_getElem?.mp hnew
    obtain ⟨old, hold, hprior⟩ := hx.prior hj
    exact ⟨old, List.mem_of_getElem? hold, hprior⟩
  · rw [List.append_nil]
    exact hx.origins
  · intro hdeduped
    exact hdeduped.executes hx

theorem payouts_updateLedger (s : GatewayState T) (ledger : Principal)
    {f : Ledger Principal → Ledger Principal} (hf : ∀ l, (f l).executed = l.executed) (id : TxId) :
    PayoutStep env id a s (s.updateLedger ledger f) := by
  refine ⟨fun old hold => ⟨old, hold, .refl old⟩, fun _ _ _ htask => Or.inl htask,
    Or.inl (fun call hcall _ => prior_of_mem hcall),
    ⟨[], (List.append_nil _).symm, fun hpayout => absurd hpayout List.not_mem_nil⟩, ?_⟩
  intro hdeduped
  apply hdeduped.ledgers
  intro k x hx
  have hget : (s.updateLedger ledger f).ledgers = Function.update s.ledgers ledger
      (f (s.ledgers ledger)) := rfl
  rw [hget, Function.update_apply]
  split_ifs with hk
  · subst hk
    rw [hf]
    exact hx
  · exact hx

end

theorem perform_payouts {env : Env T} {a : Action} {s t : GatewayState T} (hnow : 0 < a.now)
    (h : perform env a s = some t) (id : TxId) : PayoutStep env id a s t := by
  have hspared (hspares : SparesUnwraps s t) : PayoutStep env id a s t := hspares.payoutStep id
  cases a with
  | submitWrapRequest now gasPrice caller args => exact hspared (spares_submitWrapRequest h)
  | submitNativeDeposit now caller args => exact hspared (spares_submitNativeDeposit h)
  | wrapWorkerTick now => exact hspared (spares_wrapWorkerTick h)
  | resumeWrap now i reply => exact hspared (spares_resumeWrap h)
  | recoverFailedWrap now id => exact hspared (spares_recoverFailedWrap h)
  | retryNativeDeposit now id => exact hspared (spares_retryNativeDeposit h)
  | repairStaleOperations now =>
      obtain rfl := Option.some.inj h
      exact payouts_repairStaleOperations s id
  | postUpgrade now config =>
      obtain rfl := Option.some.inj h
      exact payouts_postUpgrade s config id
  | miningTick now call => exact (renews_miningTick h).payoutStep id
  | unwrapDispatchTick now => exact payouts_unwrapDispatchTick hnow h id
  | resumeDispatch now i reply => exact payouts_resumeDispatch h id
  | retryUnwrapDispatch now other => exact payouts_retryUnwrapDispatch h id
  | dispatchUnwrapRequest now other assetId amount recipient =>
      obtain rfl := Option.some.inj h
      exact renews_insertUnwrapDispatchRequest.payoutStep id
  | submitIcTx now caller tx => exact hspared (spares_submitIcTx h)
  | ledgerExecutes now i refusal => exact payouts_ledgerExecutes h id
  | setFeePolicy now policy =>
      obtain rfl := Option.some.inj h
      apply hspared
      exact .same rfl rfl rfl rfl rfl
  | submitTx now txBytes caller =>
      obtain rfl := Option.some.inj h
      apply hspared
      exact .same rfl rfl rfl rfl rfl
  | ledgerFee now ledger fee =>
      obtain rfl := Option.some.inj h
      apply payouts_updateLedger
      intro l
      rfl
  | ledgerClock now ledger elapsed =>
      obtain rfl := Option.some.inj h
      apply payouts_updateLedger
      intro l
      rfl
  | ledgerReceives now ledger amount =>
      obtain rfl := Option.some.inj h
      apply payouts_updateLedger
      intro l
      rfl

end Kasane.Gateway
