import Kasane.Gateway.UnwrapFrame

namespace Kasane.Gateway

open BigEndian Codec Word Chain Exec
open UnwrapDispatchRequest

variable {T : Type}

@[ext] structure UnwrapLane where
  record : Option UnwrapDispatchRequest
  queued : Nat
  tasks : List DispatchTask

namespace UnwrapLane

def push (l : UnwrapLane) : UnwrapLane := { l with queued := l.queued + 1 }

def suspend (l : UnwrapLane) (task : DispatchTask) : UnwrapLane :=
  { l with tasks := l.tasks ++ [task] }

def update (l : UnwrapLane) (f : UnwrapDispatchRequest → UnwrapDispatchRequest) : UnwrapLane :=
  { l with record := l.record.map f }

def requeue (l : UnwrapLane) (p : UnwrapDispatchRequest → Bool) : UnwrapLane :=
  { l with queued := if l.record.any p = true then max 1 l.queued else l.queued }

def quarantine (l : UnwrapLane) (now : Nat) : UnwrapLane where
  record := l.record.map (quarantineDecodeFailed now)
  queued := if l.record.any isDecodeFailedUnwrapRequest = true then 0 else l.queued
  tasks := l.tasks

section

variable (l : UnwrapLane) (f : UnwrapDispatchRequest → UnwrapDispatchRequest)
  (p : UnwrapDispatchRequest → Bool) (task : DispatchTask) (now : Nat)

@[simp] theorem record_update : (l.update f).record = l.record.map f := rfl

@[simp] theorem queued_update : (l.update f).queued = l.queued := rfl

@[simp] theorem tasks_update : (l.update f).tasks = l.tasks := rfl

@[simp] theorem record_requeue : (l.requeue p).record = l.record := rfl

@[simp] theorem tasks_requeue : (l.requeue p).tasks = l.tasks := rfl

@[simp] theorem record_suspend : (l.suspend task).record = l.record := rfl

@[simp] theorem queued_suspend : (l.suspend task).queued = l.queued := rfl

@[simp] theorem tasks_suspend : (l.suspend task).tasks = l.tasks ++ [task] := rfl

@[simp] theorem record_quarantine :
    (l.quarantine now).record = l.record.map (quarantineDecodeFailed now) := rfl

@[simp] theorem tasks_quarantine : (l.quarantine now).tasks = l.tasks := rfl

end

def Resumes (task : DispatchTask) (l l' : UnwrapLane) : Prop :=
  ∃ before after, l.tasks = before ++ task :: after ∧ l' = { l with tasks := before ++ after }

inductive Dispatches (now : Nat) (l : UnwrapLane) : UnwrapLane → Prop
  | refused (code : String) : Dispatches now l (l.update (finalizeUnwrapDispatchAttempt now (.error code)))
  | suspended (task : DispatchTask) : Dispatches now l (l.suspend task)

inductive Continues (now : Nat) (l : UnwrapLane) : UnwrapLane → Prop
  | finished (applied : Except String LedgerTxId) :
      Continues now l (l.update (finalizeUnwrapDispatchAttempt now applied))
  | sent (call : Nat) : Continues now l (l.suspend (.transfer call))

end UnwrapLane

open UnwrapLane

def Action.recordsUnwraps : Action → Prop
  | .miningTick _ _ => True
  | .dispatchUnwrapRequest _ _ _ _ _ => True
  | _ => False

inductive UnwrapStep (R : TxId) (suspended : List (TxId × DispatchTask)) :
    Action → UnwrapLane → UnwrapLane → Prop
  | other {a : Action} {l : UnwrapLane} : UnwrapStep R suspended a l l
  | opened {a : Action} {l : UnwrapLane} (source : a.recordsUnwraps) (fresh : l.record = none)
      (assetId : Bytes) (amount : Nat) (recipient : Bytes) (now : Nat) :
      UnwrapStep R suspended a l { l.push with record := some (.new assetId amount recipient now) }
  | forgotten {now n : Nat} {l : UnwrapLane} (unknown : l.record = none) (queued : l.queued = n + 1) :
      UnwrapStep R suspended (.unwrapDispatchTick now) l { l with queued := n }
  | quarantined {now n : Nat} {l : UnwrapLane} {req : UnwrapDispatchRequest}
      (found : l.record = some req) (skipped : req.shouldSkipDispatchUnwrapRequest = true)
      (queued : l.queued = n + 1) :
      UnwrapStep R suspended (.unwrapDispatchTick now) l
        { l with queued := n, record := some (req.quarantine now) }
  | popped {now n : Nat} {l l' : UnwrapLane} {req : UnwrapDispatchRequest}
      (found : l.record = some req) (sound : req.shouldSkipDispatchUnwrapRequest = false)
      (queued : l.queued = n + 1)
      (dispatches : Dispatches now
        { l with queued := n, record := some (req.markDispatching now) } l') :
      UnwrapStep R suspended (.unwrapDispatchTick now) l l'
  | resumed {now i : Nat} {reply : DispatchReply} {l m l' : UnwrapLane} {task : DispatchTask}
      (owned : suspended[i]? = some (R, task)) (resumes : Resumes task l m)
      (continues : Continues now m l') :
      UnwrapStep R suspended (.resumeDispatch now i reply) l l'
  | retried {now : Nat} {l : UnwrapLane} {req : UnwrapDispatchRequest}
      (found : l.record = some req) (failed : req.status = .dispatchFailed) :
      UnwrapStep R suspended (.retryUnwrapDispatch now R) l { l.push with record := some (req.retry now) }
  | repaired {now : Nat} {l : UnwrapLane} :
      UnwrapStep R suspended (.repairStaleOperations now) l ((l.requeue (dispatchStale now)).update (repairStale now))
  | upgraded {now : Nat} {config : Option WrapConfig} {l : UnwrapLane} :
      UnwrapStep R suspended (.postUpgrade now config) l
        { ((l.quarantine now).requeue upgradeRequeues).update (recoverAfterUpgrade now) with
          tasks := [] }

namespace GatewayState

def unwrapLane (s : GatewayState T) (id : TxId) : UnwrapLane where
  record := s.unwrapRequests.get id
  queued := s.unwrapDispatchQueue.count id
  tasks := (s.dispatchTasks.filter (fun task => decide (task.1 = id))).map Prod.snd

variable {env : Env T} {s t : GatewayState T} {id R : TxId} {now : Nat}

theorem unwrapLane_of_spares (h : SparesUnwraps s t) (R : TxId) : t.unwrapLane R = s.unwrapLane R := by
  rw [unwrapLane, unwrapLane, h.requests, h.queue, h.tasks]

@[simp] theorem unwrapLane_suspendDispatch (s : GatewayState T) (id : TxId) (task : DispatchTask)
    (R : TxId) : (s.suspendDispatch id task).unwrapLane R =
      if R = id then (s.unwrapLane R).suspend task else s.unwrapLane R := by
  by_cases h : R = id
  · subst h
    simp [unwrapLane, suspendDispatch, UnwrapLane.suspend]
  · simp [unwrapLane, suspendDispatch, h, Ne.symm h]

@[simp] theorem unwrapLane_finishDispatch (s : GatewayState T) (id : TxId) (now : Nat)
    (applied : Except String LedgerTxId) (R : TxId) :
    (s.finishDispatch id now applied).unwrapLane R =
      if R = id then (s.unwrapLane R).update (finalizeUnwrapDispatchAttempt now applied)
      else s.unwrapLane R := by
  by_cases h : R = id
  · subst h
    simp [unwrapLane, finishDispatch, UnwrapLane.update]
  · simp [unwrapLane, finishDispatch, h, OrdMap.get_modify_of_ne s.unwrapRequests _ h]

theorem unwrapLane_sendPayout {ledger recipient : StoredPrincipal} {amount : Nat}
    {req : UnwrapDispatchRequest} (R : TxId) :
    (s.sendPayout env id ledger recipient amount req).unwrapLane R =
      if R = id then (s.unwrapLane R).suspend (.transfer s.calls.length) else s.unwrapLane R :=
  unwrapLane_suspendDispatch _ id _ R

theorem dispatchUnwrapRequestInternal_dispatches {req : UnwrapDispatchRequest} :
    Dispatches now (s.unwrapLane id)
      ((s.dispatchUnwrapRequestInternal env id now req).unwrapLane id) := by
  rw [dispatchUnwrapRequestInternal]
  cases s.dispatchLedger req with
  | error code =>
      dsimp only
      rw [unwrapLane_finishDispatch, if_pos rfl]
      exact .refused code
  | ok ledger =>
      cases StoredPrincipal.ofBytes req.recipient with
      | none =>
          dsimp only
          rw [unwrapLane_finishDispatch, if_pos rfl]
          exact .refused _
      | some recipient =>
          dsimp only
          split_ifs
          · rw [unwrapLane_suspendDispatch, if_pos rfl]
            exact .suspended _
          · rw [unwrapLane_sendPayout, if_pos rfl]
            exact .suspended _

theorem dispatchUnwrapRequestInternal_of_ne {req : UnwrapDispatchRequest} (hne : R ≠ id) :
    (s.dispatchUnwrapRequestInternal env id now req).unwrapLane R = s.unwrapLane R := by
  rw [dispatchUnwrapRequestInternal]
  cases s.dispatchLedger req with
  | error code => exact (unwrapLane_finishDispatch ..).trans (if_neg hne)
  | ok ledger =>
      cases StoredPrincipal.ofBytes req.recipient with
      | none => exact (unwrapLane_finishDispatch ..).trans (if_neg hne)
      | some recipient =>
          dsimp only
          split_ifs
          · exact (unwrapLane_suspendDispatch ..).trans (if_neg hne)
          · exact (unwrapLane_sendPayout R).trans (if_neg hne)

theorem dispatchUnwrapRequestInternal_queue {req : UnwrapDispatchRequest} :
    (s.dispatchUnwrapRequestInternal env id now req).unwrapDispatchQueue = s.unwrapDispatchQueue := by
  rw [dispatchUnwrapRequestInternal]
  split
  · rfl
  · split
    · rfl
    · split_ifs
      · rfl
      · rfl

structure UnwrapKeeps (a : Action) (s t : GatewayState T) : Prop where
  wellFormed : t.unwrapDispatchQueue.WellFormed
  lane : ∀ R, UnwrapStep R s.dispatchTasks a (s.unwrapLane R) (t.unwrapLane R)

theorem unwrapDispatchTick_eq (env : Env T) (now : Nat) (s : GatewayState T) :
    unwrapDispatchTick env now s = (popNextDispatchRequest now s).map (fun popped =>
      match popped.1 with
      | .error _ => popped.2
      | .ok (id, req) => popped.2.dispatchUnwrapRequestInternal env id now req) := by
  rw [unwrapDispatchTick, popNextDispatchRequest]
  split
  · rfl
  · rfl
  · dsimp only
    split
    · rfl
    · split_ifs
      · rfl
      · rfl

inductive PopFails (now : Nat) (l : UnwrapLane) : UnwrapLane → Prop
  | other : PopFails now l l
  | forgotten {n : Nat} (unknown : l.record = none) (queued : l.queued = n + 1) :
      PopFails now l { l with queued := n }
  | quarantined {n : Nat} {req : UnwrapDispatchRequest} (found : l.record = some req)
      (skipped : req.shouldSkipDispatchUnwrapRequest = true) (queued : l.queued = n + 1) :
      PopFails now l { l with queued := n, record := some (req.quarantine now) }

theorem PopFails.step {suspended : List (TxId × DispatchTask)} {l l' : UnwrapLane}
    (h : PopFails now l l') : UnwrapStep R suspended (.unwrapDispatchTick now) l l' := by
  cases h with
  | other => exact .other
  | forgotten unknown queued => exact .forgotten unknown queued
  | quarantined found skipped queued => exact .quarantined found skipped queued

structure PopsUnwrap (now : Nat) (s t : GatewayState T) (id : TxId) (new : UnwrapDispatchRequest) :
    Prop where
  wellFormed : t.unwrapDispatchQueue.WellFormed
  other : ∀ R, R ≠ id → t.unwrapLane R = s.unwrapLane R
  popped : ∃ old n, (s.unwrapLane id).record = some old ∧
    old.shouldSkipDispatchUnwrapRequest = false ∧ (s.unwrapLane id).queued = n + 1 ∧
      new = old.markDispatching now ∧
        t.unwrapLane id = { s.unwrapLane id with queued := n, record := some new }

theorem popNextDispatchRequest_unwraps (hw : s.unwrapDispatchQueue.WellFormed)
    {r : Except PopError (TxId × UnwrapDispatchRequest)}
    (h : popNextDispatchRequest now s = some (r, t)) :
    match r with
    | .error _ => t.unwrapDispatchQueue.WellFormed ∧
        ∀ R, PopFails now (s.unwrapLane R) (t.unwrapLane R)
    | .ok (id, new) => PopsUnwrap now s t id new := by
  rw [popNextDispatchRequest] at h
  split at h
  · exact absurd h (by simp)
  · rename_i rest hpop
    obtain ⟨rfl, rfl⟩ := Prod.mk.inj (Option.some.inj h)
    obtain ⟨hrest, hcount⟩ := SeqQueue.pop_missing hw hpop
    refine ⟨hrest, ?_⟩
    intro R
    have hsame : ({ s with unwrapDispatchQueue := rest } : GatewayState T).unwrapLane R =
        s.unwrapLane R := by
      simp [unwrapLane, hcount R]
    rw [hsame]
    exact .other
  · rename_i id rest hpop
    obtain ⟨hrest, hcount⟩ := SeqQueue.pop_some hw hpop
    have hpopped (R : TxId) (hne : R ≠ id) : rest.count R = s.unwrapDispatchQueue.count R := by
      have hR := hcount R
      rw [if_neg (Ne.symm hne)] at hR
      exact hR
    have hself : s.unwrapDispatchQueue.count id = rest.count id + 1 := by
      have hid := hcount id
      rw [if_pos rfl] at hid
      exact hid.symm
    have hothers (new : UnwrapDispatchRequest) (R : TxId) (hne : R ≠ id) :
        ({ s with
          unwrapDispatchQueue := rest
          unwrapRequests := s.unwrapRequests.insert id new } : GatewayState T).unwrapLane R =
            s.unwrapLane R := by
      simp [unwrapLane, hpopped R hne, hne]
    have hlane (new : UnwrapDispatchRequest) : ({ s with
        unwrapDispatchQueue := rest
        unwrapRequests := s.unwrapRequests.insert id new } : GatewayState T).unwrapLane id =
          { s.unwrapLane id with queued := rest.count id, record := some new } := by
      simp [unwrapLane]
    dsimp only at h
    cases hget : s.unwrapRequests.get id with
    | none =>
        rw [hget] at h
        obtain ⟨rfl, rfl⟩ := Prod.mk.inj (Option.some.inj h)
        refine ⟨hrest, ?_⟩
        intro R
        by_cases hR : R = id
        · subst hR
          exact .forgotten hget hself
        · have hsame : ({ s with unwrapDispatchQueue := rest } : GatewayState T).unwrapLane R =
              s.unwrapLane R := by
            simp [unwrapLane, hpopped R hR]
          rw [hsame]
          exact .other
    | some req =>
        rw [hget] at h
        dsimp only at h
        split_ifs at h with hskip
        · obtain ⟨rfl, rfl⟩ := Prod.mk.inj (Option.some.inj h)
          refine ⟨hrest, ?_⟩
          intro R
          by_cases hR : R = id
          · subst hR
            rw [hlane]
            exact .quarantined hget hskip hself
          · rw [hothers _ R hR]
            exact .other
        · obtain ⟨rfl, rfl⟩ := Prod.mk.inj (Option.some.inj h)
          exact ⟨hrest, hothers _, req, rest.count id, hget, Bool.eq_false_of_not_eq_true hskip,
            hself, rfl, hlane _⟩

theorem unwrapDispatchTick_unwraps (hw : s.unwrapDispatchQueue.WellFormed)
    (h : unwrapDispatchTick env now s = some t) : UnwrapKeeps (.unwrapDispatchTick now) s t := by
  rw [unwrapDispatchTick_eq] at h
  obtain ⟨⟨r, u⟩, hpop, rfl⟩ := Option.map_eq_some_iff.mp h
  have hpops := popNextDispatchRequest_unwraps hw hpop
  cases r with
  | error e => exact ⟨hpops.1, fun R => (hpops.2 R).step⟩
  | ok popped =>
      obtain ⟨id, new⟩ := popped
      obtain ⟨hrest, hother, req, n, hfound, hsound, hqueued, rfl, hlane⟩ := hpops
      refine ⟨?_, ?_⟩
      · dsimp only
        rw [dispatchUnwrapRequestInternal_queue]
        exact hrest
      · intro R
        dsimp only
        by_cases hR : R = id
        · subst hR
          refine .popped hfound hsound hqueued ?_
          rw [← hlane]
          exact dispatchUnwrapRequestInternal_dispatches
        · rw [dispatchUnwrapRequestInternal_of_ne hR, hother R hR]
          exact .other

theorem unwrapLane_resumes {i : Nat} {task : DispatchTask} (h : s.dispatchTasks[i]? = some (id, task)) :
    Resumes task (s.unwrapLane id)
      (({ s with dispatchTasks := s.dispatchTasks.eraseIdx i } : GatewayState T).unwrapLane id) := by
  obtain ⟨before, after, hsplit, herase⟩ := eraseIdx_split h
  refine ⟨(before.filter (fun task => decide (task.1 = id))).map Prod.snd,
    (after.filter (fun task => decide (task.1 = id))).map Prod.snd, ?_, ?_⟩
  · simp [unwrapLane, hsplit]
  · simp [unwrapLane, herase]

theorem unwrapLane_eraseTask {i : Nat} {task : DispatchTask}
    (h : s.dispatchTasks[i]? = some (id, task)) (hne : R ≠ id) :
    ({ s with dispatchTasks := s.dispatchTasks.eraseIdx i } : GatewayState T).unwrapLane R =
      s.unwrapLane R := by
  obtain ⟨before, after, hsplit, herase⟩ := eraseIdx_split h
  simp only [unwrapLane]
  rw [herase, hsplit]
  simp [Ne.symm hne]

theorem finishDispatch_continues (applied : Except String LedgerTxId) :
    Continues now (s.unwrapLane id) ((s.finishDispatch id now applied).unwrapLane id) := by
  rw [unwrapLane_finishDispatch, if_pos rfl]
  exact .finished applied

theorem finishDispatchFee_continues {ledger recipient : StoredPrincipal}
    {req : UnwrapDispatchRequest} {fee : Except String (BitVec 128)} :
    Continues now (s.unwrapLane id)
      ((s.finishDispatchFee env id now ledger recipient req fee).unwrapLane id) := by
  cases fee with
  | error code => exact finishDispatch_continues _
  | ok fee =>
      rw [finishDispatchFee.eq_2]
      cases nativeWithdrawGrossTransferAmount req.amount fee.toNat with
      | error code => exact finishDispatch_continues _
      | ok amount =>
          dsimp only
          rw [unwrapLane_sendPayout, if_pos rfl]
          exact .sent _

theorem finishDispatchFee_of_ne {ledger recipient : StoredPrincipal} {req : UnwrapDispatchRequest}
    {fee : Except String (BitVec 128)} (hne : R ≠ id) :
    (s.finishDispatchFee env id now ledger recipient req fee).unwrapLane R = s.unwrapLane R := by
  cases fee with
  | error code => exact (unwrapLane_finishDispatch ..).trans (if_neg hne)
  | ok fee =>
      rw [finishDispatchFee.eq_2]
      cases nativeWithdrawGrossTransferAmount req.amount fee.toNat with
      | error code => exact (unwrapLane_finishDispatch ..).trans (if_neg hne)
      | ok amount => exact (unwrapLane_sendPayout R).trans (if_neg hne)

theorem finishDispatchFee_queue {ledger recipient : StoredPrincipal} {req : UnwrapDispatchRequest}
    {fee : Except String (BitVec 128)} :
    (s.finishDispatchFee env id now ledger recipient req fee).unwrapDispatchQueue =
      s.unwrapDispatchQueue := by
  cases fee with
  | error code => rfl
  | ok fee =>
      rw [finishDispatchFee.eq_2]
      cases nativeWithdrawGrossTransferAmount req.amount fee.toNat with
      | error code => rfl
      | ok amount => rfl

theorem resumeDispatch_unwraps (hw : s.unwrapDispatchQueue.WellFormed) {i : Nat}
    {reply : DispatchReply} (h : resumeDispatch env now i reply s = some t) :
    UnwrapKeeps (.resumeDispatch now i reply) s t := by
  rw [resumeDispatch] at h
  cases htask : s.dispatchTasks[i]? with
  | none =>
      rw [htask] at h
      exact absurd h (by simp)
  | some entry =>
      obtain ⟨id, task⟩ := entry
      rw [htask] at h
      dsimp only at h
      have hresumes := unwrapLane_resumes htask
      cases task <;> cases reply <;> simp only [resumeDispatchTask, reduceCtorEq] at h
      · obtain rfl := Option.some.inj h
        refine ⟨?_, ?_⟩
        · rw [finishDispatchFee_queue]
          exact hw
        · intro R
          by_cases hR : R = id
          · subst hR
            exact .resumed htask hresumes finishDispatchFee_continues
          · rw [finishDispatchFee_of_ne hR, unwrapLane_eraseTask htask hR]
            exact .other
      · obtain ⟨applied, -, rfl⟩ := Option.map_eq_some_iff.mp h
        refine ⟨hw, ?_⟩
        intro R
        by_cases hR : R = id
        · subst hR
          exact .resumed htask hresumes (finishDispatch_continues applied)
        · rw [unwrapLane_finishDispatch, if_neg hR, unwrapLane_eraseTask htask hR]
          exact .other

theorem retryUnwrapDispatch_unwraps (hw : s.unwrapDispatchQueue.WellFormed)
    (h : retryUnwrapDispatch now id s = some t) : UnwrapKeeps (.retryUnwrapDispatch now id) s t := by
  simp only [retryUnwrapDispatch, Option.bind_eq_bind, Option.bind_none] at h
  obtain ⟨req, hreq, h⟩ := Option.bind_eq_some_iff.mp h
  obtain ⟨hfailed, h⟩ := Option.ite_none_left_eq_some.mp h
  obtain rfl := Option.some.inj h
  refine ⟨hw.push id, ?_⟩
  intro R
  have hcount := SeqQueue.count_push hw id R
  by_cases hR : R = id
  · subst hR
    have hlane : ({ s with
        unwrapRequests := s.unwrapRequests.insert R (req.retry now)
        unwrapDispatchQueue := s.unwrapDispatchQueue.push R } : GatewayState T).unwrapLane R =
          { (s.unwrapLane R).push with record := some (req.retry now) } := by
      simp [unwrapLane, UnwrapLane.push, hcount]
    rw [hlane]
    exact .retried hreq (not_not.mp hfailed)
  · have hlane : ({ s with
        unwrapRequests := s.unwrapRequests.insert id (req.retry now)
        unwrapDispatchQueue := s.unwrapDispatchQueue.push id } : GatewayState T).unwrapLane R =
          s.unwrapLane R := by
      simp [unwrapLane, hcount, hR, Ne.symm hR]
    rw [hlane]
    exact .other

theorem repairStaleOperations_unwraps (hw : s.unwrapDispatchQueue.WellFormed) :
    UnwrapKeeps (.repairStaleOperations now) s (s.repairStaleOperations now) := by
  refine ⟨hw.requeue _, ?_⟩
  intro R
  have hlane : (s.repairStaleOperations now).unwrapLane R =
      ((s.unwrapLane R).requeue (dispatchStale now)).update (repairStale now) := by
    have hcount := SeqQueue.count_requeue hw (keysWhere (dispatchStale now) s.unwrapRequests) R
    simp only [mem_keysWhere] at hcount
    apply UnwrapLane.ext
    · exact OrdMap.get_map ..
    · exact hcount
    · rfl
  rw [hlane]
  exact .repaired

theorem unwrapLane_quarantine (s : GatewayState T) (now : Nat) (R : TxId) :
    (s.quarantineDecodeFailedUnwrapRequests now).unwrapLane R = (s.unwrapLane R).quarantine now := by
  have hcount := SeqQueue.count_drop s.unwrapDispatchQueue
    (fun id => (s.unwrapRequests.get id).any isDecodeFailedUnwrapRequest) R
  apply UnwrapLane.ext
  · exact OrdMap.get_map ..
  · exact hcount
  · rfl

theorem wellFormed_quarantine (hw : s.unwrapDispatchQueue.WellFormed) :
    (s.quarantineDecodeFailedUnwrapRequests now).unwrapDispatchQueue.WellFormed :=
  hw.drop (fun id => (s.unwrapRequests.get id).any isDecodeFailedUnwrapRequest)

theorem spares_applyWrapConfig (s : GatewayState T) (config : Option WrapConfig) :
    SparesUnwraps s (s.applyWrapConfig config) := by
  cases config with
  | none => exact .same rfl rfl rfl rfl rfl
  | some config => exact .same rfl rfl rfl rfl rfl

theorem wellFormed_configured (hw : s.unwrapDispatchQueue.WellFormed) (config : Option WrapConfig) :
    ((s.applyWrapConfig config).quarantineDecodeFailedUnwrapRequests
      now).unwrapDispatchQueue.WellFormed := by
  apply wellFormed_quarantine
  rw [(spares_applyWrapConfig s config).queue]
  exact hw

theorem unwrapLane_configured (s : GatewayState T) (now : Nat) (config : Option WrapConfig)
    (R : TxId) : ((s.applyWrapConfig config).quarantineDecodeFailedUnwrapRequests now).unwrapLane R =
      (s.unwrapLane R).quarantine now := by
  rw [unwrapLane_quarantine, unwrapLane_of_spares (spares_applyWrapConfig s config)]

theorem unwrapLane_postUpgrade (hw : s.unwrapDispatchQueue.WellFormed) (config : Option WrapConfig)
    (R : TxId) : (s.postUpgrade now config).unwrapLane R =
      { (((s.unwrapLane R).quarantine now).requeue upgradeRequeues).update (recoverAfterUpgrade now) with
        tasks := [] } := by
  have hdropped : ((s.applyWrapConfig config).quarantineDecodeFailedUnwrapRequests
      now).unwrapDispatchQueue.WellFormed := wellFormed_configured hw config
  have hcount := SeqQueue.count_requeue hdropped
    (keysWhere upgradeRequeues
      ((s.applyWrapConfig config).quarantineDecodeFailedUnwrapRequests now).unwrapRequests) R
  simp only [mem_keysWhere] at hcount
  rw [← unwrapLane_configured s now config R]
  apply UnwrapLane.ext
  · exact OrdMap.get_map ..
  · exact hcount
  · rfl

theorem postUpgrade_unwraps (hw : s.unwrapDispatchQueue.WellFormed) {config : Option WrapConfig} :
    UnwrapKeeps (.postUpgrade now config) s (s.postUpgrade now config) := by
  refine ⟨(wellFormed_configured hw config).requeue _, ?_⟩
  intro R
  rw [unwrapLane_postUpgrade hw config R]
  exact .upgraded

inductive Opens (l : UnwrapLane) : UnwrapLane → Prop
  | same : Opens l l
  | opened (fresh : l.record = none) (assetId : Bytes) (amount : Nat) (recipient : Bytes) (now : Nat) :
      Opens l { l.push with record := some (.new assetId amount recipient now) }

theorem Opens.trans {l m n : UnwrapLane} (h : Opens l m) (h' : Opens m n) : Opens l n := by
  cases h with
  | same => exact h'
  | opened fresh assetId amount recipient now =>
      cases h' with
      | same => exact .opened fresh assetId amount recipient now
      | opened fresh' => exact absurd fresh' (by simp)

theorem Opens.step {a : Action} {suspended : List (TxId × DispatchTask)} {l m : UnwrapLane}
    (h : Opens l m) (source : a.recordsUnwraps) : UnwrapStep R suspended a l m := by
  cases h with
  | same => exact .other
  | opened fresh assetId amount recipient now => exact .opened source fresh assetId amount recipient now

structure OpensUnwraps (s t : GatewayState T) : Prop where
  wellFormed : s.unwrapDispatchQueue.WellFormed → t.unwrapDispatchQueue.WellFormed
  lane : s.unwrapDispatchQueue.WellFormed → ∀ R, Opens (s.unwrapLane R) (t.unwrapLane R)

theorem OpensUnwraps.refl (s : GatewayState T) : OpensUnwraps s s := ⟨id, fun _ _ => .same⟩

theorem OpensUnwraps.trans {u : GatewayState T} (h : OpensUnwraps s t) (h' : OpensUnwraps t u) :
    OpensUnwraps s u :=
  ⟨fun hw => h'.wellFormed (h.wellFormed hw),
    fun hw R => (h.lane hw R).trans (h'.lane (h.wellFormed hw) R)⟩

theorem OpensUnwraps.unwraps {a : Action} (h : OpensUnwraps s t)
    (hw : s.unwrapDispatchQueue.WellFormed) (source : a.recordsUnwraps) : UnwrapKeeps a s t :=
  ⟨h.wellFormed hw, fun R => (h.lane hw R).step source⟩

theorem opens_insertUnwrapDispatchRequest (assetId : Bytes) (amount : Nat) (recipient : Bytes) :
    OpensUnwraps s (s.insertUnwrapDispatchRequest id (.new assetId amount recipient now)) := by
  rw [insertUnwrapDispatchRequest]
  split_ifs with hknown
  · exact .refl s
  · refine ⟨fun hw => hw.push id, ?_⟩
    intro hw R
    have hcount := SeqQueue.count_push hw id R
    by_cases hR : R = id
    · subst hR
      have hlane : ({ s with
          unwrapRequests := s.unwrapRequests.insert R (.new assetId amount recipient now)
          unwrapDispatchQueue := s.unwrapDispatchQueue.push R } : GatewayState T).unwrapLane R =
            { (s.unwrapLane R).push with record := some (.new assetId amount recipient now) } := by
        simp [unwrapLane, UnwrapLane.push, hcount]
      rw [hlane]
      refine .opened ?_ assetId amount recipient now
      simpa [unwrapLane] using hknown
    · have hlane : ({ s with
          unwrapRequests := s.unwrapRequests.insert id (.new assetId amount recipient now)
          unwrapDispatchQueue := s.unwrapDispatchQueue.push id } : GatewayState T).unwrapLane R =
            s.unwrapLane R := by
        simp [unwrapLane, hcount, hR, Ne.symm hR]
      rw [hlane]
      exact .same

theorem opens_recordUnwrapRequest (c : Crypto) (txId : TxId) (log : Receipt.LogEntry × Nat) :
    OpensUnwraps s (recordUnwrapRequest c now txId s log) := by
  rw [recordUnwrapRequest]
  split
  · rename_i req id hreq _
    rw [unwrapRequestFromLog] at hreq
    split at hreq
    · obtain rfl := Option.some.inj hreq
      exact opens_insertUnwrapDispatchRequest _ _ _
    · obtain ⟨intent, -, rfl⟩ := Option.map_eq_some_iff.mp hreq
      exact opens_insertUnwrapDispatchRequest _ _ _
  · exact .refl s

theorem opens_recordUnwrapRequests (c : Crypto) (txId : TxId)
    (logs : List (Receipt.LogEntry × Nat)) :
    OpensUnwraps s (logs.foldl (recordUnwrapRequest c now txId) s) := by
  induction logs generalizing s with
  | nil => exact .refl s
  | cons log logs ih => exact (opens_recordUnwrapRequest c txId log).trans ih

theorem opens_recordUnwrapRequestsFromTx (c : Crypto) (txId : TxId) :
    OpensUnwraps s (recordUnwrapRequestsFromTx c now s txId) := by
  rw [recordUnwrapRequestsFromTx]
  cases getReceipt s.chain txId with
  | none => exact .refl s
  | some receipt => exact opens_recordUnwrapRequests c txId _

theorem opens_recordUnwrapRequestsFromBlock (c : Crypto) (txIds : List TxId) :
    OpensUnwraps s (s.recordUnwrapRequestsFromBlock c now txIds) := by
  induction txIds generalizing s with
  | nil => exact .refl s
  | cons txId txIds ih => exact (opens_recordUnwrapRequestsFromTx c txId).trans ih

theorem miningTick_unwraps (hw : s.unwrapDispatchQueue.WellFormed) {call : CallEnv}
    (h : miningTick env call now s = some t) : UnwrapKeeps (.miningTick now call) s t := by
  rw [miningTick] at h
  split at h
  · exact absurd h (by simp)
  · obtain rfl := Option.some.inj h
    exact ⟨hw, fun _ => .other⟩
  · rename_i outcome chain _
    obtain rfl := Option.some.inj h
    let produced : GatewayState T := { s with chain := chain }
    have hopens : OpensUnwraps produced
        (produced.recordUnwrapRequestsFromBlock env.crypto now outcome.block.txIds) :=
      opens_recordUnwrapRequestsFromBlock env.crypto outcome.block.txIds
    exact ⟨hopens.wellFormed hw, fun R => (hopens.lane hw R).step trivial⟩

end GatewayState

open GatewayState

theorem perform_unwraps {env : Env T} {a : Action} {s t : GatewayState T}
    (hw : s.unwrapDispatchQueue.WellFormed) (h : perform env a s = some t) : UnwrapKeeps a s t := by
  have hspared (hspares : SparesUnwraps s t) : UnwrapKeeps a s t := by
    refine ⟨by rw [hspares.queue]; exact hw, ?_⟩
    intro R
    rw [unwrapLane_of_spares hspares]
    exact .other
  cases a with
  | submitWrapRequest now gasPrice caller args => exact hspared (spares_submitWrapRequest h)
  | submitNativeDeposit now caller args => exact hspared (spares_submitNativeDeposit h)
  | wrapWorkerTick now => exact hspared (spares_wrapWorkerTick h)
  | resumeWrap now i reply => exact hspared (spares_resumeWrap h)
  | recoverFailedWrap now id => exact hspared (spares_recoverFailedWrap h)
  | retryNativeDeposit now id => exact hspared (spares_retryNativeDeposit h)
  | submitIcTx now caller tx => exact hspared (spares_submitIcTx h)
  | miningTick now call => exact miningTick_unwraps hw h
  | unwrapDispatchTick now => exact unwrapDispatchTick_unwraps hw h
  | resumeDispatch now i reply => exact resumeDispatch_unwraps hw h
  | retryUnwrapDispatch now id => exact retryUnwrapDispatch_unwraps hw h
  | repairStaleOperations now =>
      obtain rfl := Option.some.inj h
      exact repairStaleOperations_unwraps hw
  | postUpgrade now config =>
      obtain rfl := Option.some.inj h
      exact postUpgrade_unwraps hw
  | dispatchUnwrapRequest now id assetId amount recipient =>
      obtain rfl := Option.some.inj h
      exact (opens_insertUnwrapDispatchRequest assetId amount recipient).unwraps hw trivial
  | ledgerExecutes now i refusal =>
      obtain ⟨r, -, rfl⟩ := Option.map_eq_some_iff.mp h
      exact ⟨hw, fun _ => .other⟩
  | setFeePolicy now policy =>
      obtain rfl := Option.some.inj h
      exact ⟨hw, fun _ => .other⟩
  | submitTx now txBytes caller =>
      obtain rfl := Option.some.inj h
      exact ⟨hw, fun _ => .other⟩
  | ledgerFee now ledger fee =>
      obtain rfl := Option.some.inj h
      exact ⟨hw, fun _ => .other⟩
  | ledgerClock now ledger elapsed =>
      obtain rfl := Option.some.inj h
      exact ⟨hw, fun _ => .other⟩
  | ledgerReceives now ledger amount =>
      obtain rfl := Option.some.inj h
      exact ⟨hw, fun _ => .other⟩

end Kasane.Gateway
