import Kasane.Gateway.Kept

namespace Kasane.Gateway

open Word Chain Exec
open WrapStoredRequest

def WrapTask.worker : WrapTask → Option WrapStoredRequest
  | .pull _ req => some req
  | .decimals _ req _ => some req
  | _ => none

def WrapTask.submits : WrapTask → Bool
  | .submitFee _ => true
  | _ => false

def WrapTask.deposits : WrapTask → Bool
  | .depositFee _ _ => true
  | .depositPull _ _ => true
  | _ => false

namespace Lane

def workers (l : Lane) : Nat := l.tasks.countP (fun task => task.worker.isSome)

def submissions (l : Lane) : Nat := l.tasks.countP WrapTask.submits

def Paid (l : Lane) : Prop := ∃ req, l.record = some req ∧ req.result.feeLedgerTxId ≠ none

def Running (l : Lane) : Prop := ∃ req, l.record = some req ∧ req.result.status = .running

def Active (l : Lane) : Prop :=
  ∃ req, l.record = some req ∧ (req.result.status = .queued ∨ req.result.status = .running)

structure Exclusive (l : Lane) : Prop where
  known : l.record = none → l.tasks = [] ∧ l.queued = 0
  gas : ∀ req, l.record = some req → req.gasLimit ≠ 0
  wraps : ∀ task ∈ l.tasks, task.deposits = false
  alone : l.queued + l.workers ≤ 1
  covered : 0 < l.queued ∨ 0 < l.workers ∨ l.Active → l.Paid ∨ l.pending = true
  submitting : 0 < l.submissions → l.submissions = 1 ∧ l.pending = true ∧ l.queued = 0 ∧
    l.workers = 0 ∧ ¬ l.Running

structure Held (l : Lane) : Prop extends Exclusive l where
  unqueued : l.queued = 0
  free : l.workers = 0
  quiet : l.submissions = 0
  found : l.record ≠ none
  cover : l.Paid ∨ l.pending = true

section

variable {l l' : Lane}

theorem exclusive_start : Exclusive start := by
  refine ⟨fun _ => ⟨rfl, rfl⟩, ?_, ?_, Nat.zero_le 1, ?_, ?_⟩
  · simp [start]
  · simp [start]
  · rintro (hpos | hpos | ⟨req, hreq, -⟩)
    · exact absurd hpos (by simp [start])
    · exact absurd hpos (by simp [workers, start])
    · exact absurd hreq (by simp [start])
  · intro hpos
    exact absurd hpos (by simp [submissions, start])

theorem Kept.paid (h : Kept l l') (hpaid : l.Paid) : l'.Paid := by
  obtain ⟨old, hold, hfee⟩ := hpaid
  obtain ⟨new, hnew, hextends⟩ := h old hold
  exact ⟨new, hnew, hextends.fee hfee⟩

theorem Resumes.counts {task : WrapTask} (h : Resumes task l l') :
    l.workers = l'.workers + (if task.worker.isSome then 1 else 0) ∧
      l.submissions = l'.submissions + (if task.submits then 1 else 0) := by
  obtain ⟨before, after, htasks, rfl⟩ := h
  constructor
  · simp only [workers, htasks, List.countP_append, List.countP_cons]
    omega
  · simp only [submissions, htasks, List.countP_append, List.countP_cons]
    omega

theorem workers_suspend (task : WrapTask) :
    (l.suspend task).workers = l.workers + (if task.worker.isSome then 1 else 0) := by
  simp [workers, suspend, List.countP_append, List.countP_cons]

theorem submissions_suspend (task : WrapTask) :
    (l.suspend task).submissions = l.submissions + (if task.submits then 1 else 0) := by
  simp [submissions, suspend, List.countP_append, List.countP_cons]

theorem Exclusive.resume {task : WrapTask} (h : Exclusive l) (hresumes : Resumes task l l') :
    Exclusive l' := by
  obtain ⟨hworkers, hsubmissions⟩ := hresumes.counts
  have hmem (task' : WrapTask) (htask' : task' ∈ l'.tasks) : task' ∈ l.tasks := hresumes.mem htask'
  have hfound : l.record ≠ none := by
    intro hnone
    have htask := hresumes.task_mem
    rw [(h.known hnone).1] at htask
    exact absurd htask List.not_mem_nil
  obtain ⟨before, after, htasks, rfl⟩ := hresumes
  constructor
  · intro hnone
    exact absurd hnone hfound
  · exact h.gas
  · exact fun task' htask' => h.wraps task' (hmem task' htask')
  · have halone := h.alone
    dsimp only
    omega
  · intro hpremise
    refine h.covered ?_
    rcases hpremise with hqueued | hworker | hactive
    · exact Or.inl hqueued
    · exact Or.inr (Or.inl (by omega))
    · exact Or.inr (Or.inr hactive)
  · intro hpos
    obtain ⟨hone, hpending, hqueued, hnone, hrunning⟩ := h.submitting (by omega)
    exact ⟨by omega, hpending, hqueued, by omega, hrunning⟩

theorem gas_of_kept (h : Exclusive l) (hkept : Kept l l') (hsome : l.record ≠ none)
    (req : WrapStoredRequest) (hreq : l'.record = some req) : req.gasLimit ≠ 0 := by
  obtain ⟨old, hold⟩ := Option.ne_none_iff_exists'.mp hsome
  obtain ⟨new, hnew, hextends⟩ := hkept old hold
  obtain rfl := Option.some.inj (hnew.symm.trans hreq)
  rw [hextends.gas]
  exact h.gas old hold

theorem update_record_none {f : WrapStoredRequest → WrapStoredRequest}
    (h : (l.update f).record = none) : l.record = none :=
  Option.map_eq_none_iff.mp h

theorem Exclusive.update {f : WrapStoredRequest → WrapStoredRequest} (h : Exclusive l)
    (hf : ∀ req, Extends req (f req)) (hactive : (l.update f).Active → l.Active)
    (hrunning : (l.update f).Running → l.Running) : Exclusive (l.update f) := by
  have hkept : Kept l (l.update f) := .update hf
  constructor
  · intro hnone
    exact h.known (update_record_none hnone)
  · intro req hreq
    have hsome : l.record ≠ none := by
      intro hnone
      rw [Lane.update, hnone] at hreq
      exact absurd hreq (by simp)
    exact gas_of_kept h hkept hsome req hreq
  · exact h.wraps
  · exact h.alone
  · intro hpremise
    exact (h.covered (hpremise.imp_right (Or.imp_right hactive))).imp_left hkept.paid
  · intro hpos
    obtain ⟨hone, hpending, hqueued, hworkers, hnot⟩ := h.submitting hpos
    exact ⟨hone, hpending, hqueued, hworkers, hnot ∘ hrunning⟩

theorem Held.update {f : WrapStoredRequest → WrapStoredRequest} (h : Held l)
    (hf : ∀ req, Extends req (f req)) : Held (l.update f) := by
  have hkept : Kept l (l.update f) := .update hf
  have hcover := h.cover.imp_left hkept.paid
  have hquiet : (l.update f).submissions = 0 := h.quiet
  refine ⟨⟨?_, gas_of_kept h.toExclusive hkept h.found, h.wraps, h.alone, fun _ => hcover, ?_⟩,
    h.unqueued, h.free, h.quiet, ?_, hcover⟩
  · intro hnone
    exact absurd (update_record_none hnone) h.found
  · intro hpos
    omega
  · intro hnone
    exact h.found (update_record_none hnone)

theorem Held.finish {now : Nat} {outcome : WrapExecutionOutcome} (h : Held l) :
    Held (l.finish now outcome) :=
  h.update (fun req => .applyWrapExecutionOutcome req now outcome)

theorem Held.minted {id : TxId} {now : Nat} {pullLedgerTxId : LedgerTxId} {txId : TxId}
    {accepted : Bool} (h : Held l) : Held (l.minted id now pullLedgerTxId txId accepted) := by
  have hrecorded : Held ((l.update (recordWrapMintSubmitted txId now)).finish now
      (wrapMinted pullLedgerTxId txId)) :=
    (h.update (fun req => .recordWrapMintSubmitted req now txId)).finish
  exact ⟨⟨hrecorded.known, hrecorded.gas, hrecorded.wraps, hrecorded.alone, hrecorded.covered,
    hrecorded.submitting⟩, hrecorded.unqueued, hrecorded.free, hrecorded.quiet, hrecorded.found,
      hrecorded.cover⟩

theorem Held.suspend {task : WrapTask} (h : Held l) (hworker : task.worker.isSome = true)
    (hsubmits : task.submits = false) (hdeposits : task.deposits = false) :
    Exclusive (l.suspend task) := by
  have hworkers := workers_suspend (l := l) task
  have hsubmissions := submissions_suspend (l := l) task
  rw [if_pos hworker, h.free] at hworkers
  rw [hsubmits, if_neg (by simp), h.quiet] at hsubmissions
  constructor
  · intro hnone
    exact absurd hnone h.found
  · exact h.gas
  · intro task' htask'
    rcases List.mem_append.mp htask' with htask' | htask'
    · exact h.wraps task' htask'
    · rw [List.mem_singleton.mp htask']
      exact hdeposits
  · have hqueued : (l.suspend task).queued = 0 := h.unqueued
    omega
  · exact fun _ => h.cover
  · intro hpos
    omega

theorem Exclusive.resumeWorker {task : WrapTask} (h : Exclusive l) (hresumes : Resumes task l l')
    (hworker : task.worker.isSome = true) : Held l' := by
  obtain ⟨hworkers, hsubmissions⟩ := hresumes.counts
  rw [if_pos hworker] at hworkers
  have halone := h.alone
  have hquiet : l.submissions = 0 := by
    by_contra hpos
    have hsubmitting := h.submitting (Nat.pos_of_ne_zero hpos)
    omega
  have hcover := h.covered (Or.inr (Or.inl (by omega)))
  have hexclusive := h.resume hresumes
  have hfound : l'.record ≠ none := by
    intro hnone
    obtain ⟨before, after, htasks, rfl⟩ := hresumes
    rw [(h.known hnone).1] at htasks
    exact absurd htasks (by simp)
  obtain ⟨before, after, -, rfl⟩ := hresumes
  exact ⟨hexclusive, by dsimp only; omega, by omega, by omega, hfound, hcover⟩

theorem Exclusive.dequeue {req : WrapStoredRequest} {now : Nat} (h : Exclusive l)
    (hfound : l.record = some req) (hqueued : 0 < l.queued) :
    Held { l with queued := l.queued - 1, record := some (req.markRunning now) } := by
  have halone := h.alone
  have hquiet : l.submissions = 0 := by
    by_contra hpos
    have hsubmitting := h.submitting (Nat.pos_of_ne_zero hpos)
    omega
  have hworkers : l.workers = 0 := by omega
  have hkept : Kept l { l with queued := l.queued - 1, record := some (req.markRunning now) } :=
    .replace hfound rfl (.markRunning req now)
  have hcover := (h.covered (Or.inl hqueued)).imp_left hkept.paid
  refine ⟨⟨?_, ?_, h.wraps, ?_, fun _ => hcover, ?_⟩, ?_, hworkers, hquiet, ?_, hcover⟩
  · intro hnone
    exact absurd hnone (by simp)
  · exact gas_of_kept h hkept (by rw [hfound]; simp)
  · change l.queued - 1 + l.workers ≤ 1
    omega
  · intro hpos
    change 0 < l.submissions at hpos
    omega
  · change l.queued - 1 = 0
    omega
  · simp

theorem Held.startsMint {now : Nat} {req : WrapStoredRequest} {pullLedgerTxId : LedgerTxId}
    (h : Held l) (hstarts : StartsMint now req pullLedgerTxId l l') : Exclusive l' := by
  cases hstarts with
  | known => exact h.finish.toExclusive
  | unconfigured => exact h.finish.toExclusive
  | decimals => exact h.suspend rfl rfl rfl

theorem Held.executes {now : Nat} {req : WrapStoredRequest} (h : Held l)
    (hexecutes : Executes now req l l') : Exclusive l' := by
  cases hexecutes with
  | pulls =>
      have hmarked := h.update (fun req => .markWrapStage req now .pullPending .running)
      have hsent : Held (l.update (markWrapStage .pullPending .running now)).sendPull :=
        ⟨⟨hmarked.known, hmarked.gas, hmarked.wraps, hmarked.alone, hmarked.covered,
          hmarked.submitting⟩, hmarked.unqueued, hmarked.free, hmarked.quiet, hmarked.found,
            hmarked.cover⟩
      exact hsent.suspend rfl rfl rfl
  | mints _ starts => exact h.startsMint starts

theorem Held.submitsMint {T : Type} {env : Env T} {id : TxId} {now : Nat} {factory : Address}
    {req : WrapStoredRequest} {pullLedgerTxId : LedgerTxId} {c c' : StableState (World T)}
    (h : Held l) (hsubmits : SubmitsMint env id now factory req pullLedgerTxId c l c' l') :
    Exclusive l' := by
  have hsubmitting (nonce : UInt64) : Held (l.update (recordWrapMintSubmitting nonce now)) :=
    h.update (fun req => .recordWrapMintSubmitting req now nonce)
  cases hsubmits with
  | stopped => exact h.finish.toExclusive
  | unpriced nonce => exact (hsubmitting nonce).finish.toExclusive
  | accepted => exact (hsubmitting _).minted.toExclusive
  | duplicate => exact (hsubmitting _).minted.toExclusive
  | rejected => exact (hsubmitting _).finish.toExclusive

theorem active_update {f : WrapStoredRequest → WrapStoredRequest}
    (hf : ∀ req, l.record = some req → ((f req).result.status = .queued ∨
      (f req).result.status = .running) → req.result.status = .queued ∨ req.result.status = .running)
    (h : (l.update f).Active) : l.Active := by
  obtain ⟨new, hnew, hactive⟩ := h
  obtain ⟨old, hold, rfl⟩ := Option.map_eq_some_iff.mp hnew
  exact ⟨old, hold, hf old hold hactive⟩

theorem running_update {f : WrapStoredRequest → WrapStoredRequest}
    (hf : ∀ req, l.record = some req → (f req).result.status = .running →
      req.result.status = .running) (h : (l.update f).Running) : l.Running := by
  obtain ⟨new, hnew, hrunning⟩ := h
  obtain ⟨old, hold, rfl⟩ := Option.map_eq_some_iff.mp hnew
  exact ⟨old, hold, hf old hold hrunning⟩

theorem Exclusive.updateStatus {f : WrapStoredRequest → WrapStoredRequest} (h : Exclusive l)
    (hf : ∀ req, Extends req (f req))
    (hstatus : ∀ req, (f req).result.status = req.result.status ∨
      ((f req).result.status = .queued ∧ req.result.status = .running) ∨
        (f req).result.status = .succeeded ∨ (f req).result.status = .failed) :
    Exclusive (l.update f) := by
  apply h.update hf
  · apply active_update
    intro req _ hactive
    rcases hstatus req with hsame | ⟨-, hrunning⟩ | hdone | hdone
    · rwa [hsame] at hactive
    · exact Or.inr hrunning
    · rw [hdone] at hactive
      simp at hactive
    · rw [hdone] at hactive
      simp at hactive
  · apply running_update
    intro req _ hrunning
    rcases hstatus req with hsame | ⟨hqueued, -⟩ | hdone | hdone
    · rwa [hsame] at hrunning
    · rw [hqueued] at hrunning
      simp at hrunning
    · rw [hdone] at hrunning
      simp at hrunning
    · rw [hdone] at hrunning
      simp at hrunning

theorem Exclusive.submit {now call : Nat} {req : WrapStoredRequest} (h : Exclusive l)
    (hfree : l.pending = false) (hopens : OpensWrap l.record now req) :
    Exclusive ((l.reserve req).suspend (.submitFee call)) := by
  have hunpaid : ¬ (l.Paid ∨ l.pending = true) := by
    rintro (⟨old, hold, hfee⟩ | hpending)
    · rcases hopens.opened with hsome | ⟨hnone, -⟩
      · obtain rfl := Option.some.inj (hsome.symm.trans hold)
        exact hfee hopens.unpaid
      · exact absurd (hnone.symm.trans hold) (by simp)
    · rw [hfree] at hpending
      exact absurd hpending (by simp)
  have hidle := mt h.covered hunpaid
  rw [not_or, not_or] at hidle
  have hsubmissions : l.submissions = 0 := by
    by_contra hpos
    exact hunpaid (Or.inr (h.submitting (Nat.pos_of_ne_zero hpos)).2.1)
  have hworkers' := workers_suspend (l := l.reserve req) (.submitFee call)
  have hsubmissions' := submissions_suspend (l := l.reserve req) (.submitFee call)
  change _ = l.workers + 0 at hworkers'
  change _ = l.submissions + 1 at hsubmissions'
  have hqueued : ((l.reserve req).suspend (.submitFee call)).queued = l.queued := rfl
  have hnotRunning : req.result.status ≠ .running := by
    rcases hopens.opened with hsome | ⟨-, args, caller, quote, rfl⟩
    · intro hrunning
      exact hidle.2.2 ⟨req, hsome, Or.inr hrunning⟩
    · simp [newWrapRequest, sanitizeWrapRequest, WrapRequestResult.new]
  constructor
  · intro hnone
    exact absurd hnone (by simp [suspend, reserve])
  · intro found hfound
    obtain rfl := Option.some.inj hfound
    exact hopens.gas
  · intro task htask
    rcases List.mem_append.mp htask with htask | htask
    · exact h.wraps task htask
    · rw [List.mem_singleton.mp htask]
      rfl
  · have halone := h.alone
    omega
  · exact fun _ => Or.inr rfl
  · intro _
    refine ⟨by omega, rfl, by omega, by omega, ?_⟩
    rintro ⟨found, hfound, hrunning⟩
    obtain rfl := Option.some.inj hfound
    exact hnotRunning hrunning

theorem Exclusive.replace {old new : WrapStoredRequest} (h : Exclusive l)
    (hfound : l.record = some old) (hextends : Extends old new)
    (hstatus : new.result.status = old.result.status) : Exclusive { l with record := some new } := by
  have hkept : Kept l { l with record := some new } := .replace hfound rfl hextends
  refine ⟨fun hnone => absurd hnone (by simp), gas_of_kept h hkept (by rw [hfound]; simp), h.wraps,
    h.alone, ?_, ?_⟩
  · intro hpremise
    refine (h.covered ?_).imp_left hkept.paid
    rcases hpremise with hqueued | hworkers | ⟨req, hreq, hactive⟩
    · exact Or.inl hqueued
    · exact Or.inr (Or.inl hworkers)
    · obtain rfl := Option.some.inj hreq
      exact Or.inr (Or.inr ⟨old, hfound, hstatus ▸ hactive⟩)
  · intro hpos
    obtain ⟨hone, hpending, hqueued, hworkers, hnot⟩ := h.submitting hpos
    refine ⟨hone, hpending, hqueued, hworkers, ?_⟩
    rintro ⟨req, hreq, hrunning⟩
    obtain rfl := Option.some.inj hreq
    exact hnot ⟨old, hfound, hstatus ▸ hrunning⟩

theorem Exclusive.suspendRefund {call : Nat} (h : Exclusive l) (hfound : l.record ≠ none) :
    Exclusive (l.suspend (.refund call)) := by
  have hworkers := workers_suspend (l := l) (.refund call)
  have hsubmissions := submissions_suspend (l := l) (.refund call)
  change _ = l.workers + 0 at hworkers
  change _ = l.submissions + 0 at hsubmissions
  have hqueued : (l.suspend (.refund call)).queued = l.queued := rfl
  constructor
  · intro hnone
    exact absurd hnone hfound
  · exact h.gas
  · intro task htask
    rcases List.mem_append.mp htask with htask | htask
    · exact h.wraps task htask
    · rw [List.mem_singleton.mp htask]
      rfl
  · have halone := h.alone
    omega
  · rw [hworkers]
    exact h.covered
  · rw [hworkers, hsubmissions]
    exact h.submitting

theorem Exclusive.resumeSubmission {call : Nat} (h : Exclusive l)
    (hresumes : Resumes (.submitFee call) l l') :
    Exclusive l' ∧ l'.record ≠ none ∧ l'.queued = 0 ∧ l'.workers = 0 ∧ l'.submissions = 0 := by
  obtain ⟨hworkers, hsubmissions⟩ := hresumes.counts
  change l.workers = l'.workers + 0 at hworkers
  change l.submissions = l'.submissions + 1 at hsubmissions
  have hsubmitting := h.submitting (by omega)
  have hexclusive := h.resume hresumes
  have hfound : l.record ≠ none := by
    intro hnone
    have htask := hresumes.task_mem
    rw [(h.known hnone).1] at htask
    exact absurd htask List.not_mem_nil
  have hrecord : l'.record = l.record ∧ l'.queued = l.queued := by
    obtain ⟨before, after, -, rfl⟩ := hresumes
    exact ⟨rfl, rfl⟩
  exact ⟨hexclusive, hrecord.1 ▸ hfound, by omega, by omega, by omega⟩

theorem Exclusive.unpaid {now call : Nat} {code : String} (h : Exclusive l)
    (hresumes : Resumes (.submitFee call) l l') : Exclusive (l'.failDeposit now code) := by
  obtain ⟨hl', hfound, hqueued, hworkers, hsubmissions⟩ := h.resumeSubmission hresumes
  have hfailed := hl'.updateStatus (fun req => .recordWrapRequestFailure req now code false)
    (fun req => Or.inr (Or.inr (Or.inr rfl)))
  refine ⟨hfailed.known, hfailed.gas, hfailed.wraps, hfailed.alone, ?_, ?_⟩
  · rintro (hpos | hpos | ⟨req, hreq, hactive⟩)
    · exact absurd hqueued (Nat.ne_of_gt hpos)
    · exact absurd hworkers (Nat.ne_of_gt hpos)
    · obtain ⟨old, -, rfl⟩ := Option.map_eq_some_iff.mp hreq
      simp [recordWrapRequestFailure, sanitizeWrapRequest] at hactive
  · intro hpos
    exact absurd hsubmissions (Nat.ne_of_gt hpos)

theorem Exclusive.paid {now call : Nat} {feeLedgerTxId : LedgerTxId} (h : Exclusive l)
    (hresumes : Resumes (.submitFee call) l l') :
    Exclusive ((l'.update (recordWrapFeeCollected feeLedgerTxId now)).enqueueOnce).release := by
  obtain ⟨hl', hfound, hqueued, hworkers, hsubmissions⟩ := h.resumeSubmission hresumes
  have hkept : Kept l' (l'.update (recordWrapFeeCollected feeLedgerTxId now)) :=
    .update (fun req => .recordWrapFeeCollected req now feeLedgerTxId)
  have hpaid : (l'.update (recordWrapFeeCollected feeLedgerTxId now)).Paid := by
    obtain ⟨old, hold⟩ := Option.ne_none_iff_exists'.mp hfound
    refine ⟨old.recordWrapFeeCollected feeLedgerTxId now, ?_, ?_⟩
    · rw [Lane.update, hold, Option.map_some]
    · simp [recordWrapFeeCollected, sanitizeWrapRequest]
  refine ⟨?_, gas_of_kept hl' hkept hfound, hl'.wraps, ?_, fun _ => Or.inl hpaid, ?_⟩
  · intro hnone
    exact absurd (update_record_none hnone) hfound
  · change max 1 l'.queued + l'.workers ≤ 1
    omega
  · intro hpos
    exact absurd hsubmissions (Nat.ne_of_gt hpos)

theorem Exclusive.requeue {n : Nat} {needs : Prop} [Decidable needs] (h : Exclusive l)
    (hn : n = if needs then max 1 l.queued else l.queued)
    (hneeds : needs → l.workers = 0 ∧ l.submissions = 0 ∧ l.record ≠ none ∧
      (l.Paid ∨ l.pending = true)) :
    Exclusive { l with queued := n } := by
  by_cases hrequeued : needs
  · rw [if_pos hrequeued] at hn
    obtain ⟨hworkers, hsubmissions, hfound, hcover⟩ := hneeds hrequeued
    have halone := h.alone
    refine ⟨fun hnone => absurd hnone hfound, h.gas, h.wraps, ?_, fun _ => hcover, ?_⟩
    · change n + l.workers ≤ 1
      omega
    · intro hpos
      exact absurd hsubmissions (Nat.ne_of_gt hpos)
  · rw [if_neg hrequeued] at hn
    rw [hn]
    exact h

theorem status_settleRequest {T : Type} (c : StableState (World T)) (now : Nat)
    (req : WrapStoredRequest) :
    (GatewayState.settleRequest c now req).result.status = req.result.status ∨
      (GatewayState.settleRequest c now req).result.status = .succeeded ∨
        (GatewayState.settleRequest c now req).result.status = .failed := by
  rcases GatewayState.settleRequest_cases c now req with h | ⟨_, _, _, _, ⟨_, h⟩ | ⟨_, h⟩⟩
  · exact Or.inl (by rw [h])
  · exact Or.inr (Or.inl (by rw [h]; rfl))
  · exact Or.inr (Or.inr (by rw [h]; rfl))

theorem status_repairStale (now : Nat) (req : WrapStoredRequest) :
    (req.repairStale now).result.status = req.result.status ∨
      ((req.repairStale now).result.status = .queued ∧ req.runStale now = true) := by
  rw [WrapStoredRequest.repairStale]
  split_ifs with hrefund hstale
  · exact Or.inl rfl
  · exact Or.inr ⟨rfl, hstale⟩
  · exact Or.inl rfl

theorem running_of_runStale {now : Nat} {req : WrapStoredRequest} (h : req.runStale now = true) :
    req.result.status = .running := by
  rw [runStale, Bool.and_eq_true, decide_eq_true_eq] at h
  exact h.2.1

theorem Exclusive.repair {T : Type} {c : StableState (World T)} {now n : Nat} (h : Exclusive l)
    (hunheld : l.record.any (runStale now) = true → l.workers = 0)
    (hn : n = if l.record.any (runStale now) = true then max 1 l.queued else l.queued) :
    Exclusive { l.update (fun req => (GatewayState.settleRequest c now req).repairStale now) with
      queued := n } := by
  have hrepaired : Exclusive
      (l.update (fun req => (GatewayState.settleRequest c now req).repairStale now)) := by
    apply h.updateStatus
    · exact fun req => (Extends.settleRequest req now c).trans (.repairStale _ now)
    · intro req
      have hsettled := status_settleRequest c now req
      rcases status_repairStale now (GatewayState.settleRequest c now req) with hsame | ⟨hqueued, hstale⟩
      · rw [hsame]
        exact hsettled.imp_right Or.inr
      · rw [GatewayState.runStale_settleRequest] at hstale
        exact Or.inr (Or.inl ⟨hqueued, running_of_runStale hstale⟩)
  refine hrepaired.requeue hn ?_
  intro hneeds
  obtain ⟨req, hreq, hstale⟩ := (Option.any_eq_true _ _).mp hneeds
  have hrunning : l.Running := ⟨req, hreq, running_of_runStale hstale⟩
  have hcover := h.covered (Or.inr (Or.inr ⟨req, hreq, Or.inr (running_of_runStale hstale)⟩))
  have hkept : Kept l (l.update (fun req => (GatewayState.settleRequest c now req).repairStale now)) :=
    .update (fun req => (Extends.settleRequest req now c).trans (.repairStale _ now))
  refine ⟨hunheld hneeds, ?_, ?_, hcover.imp_left hkept.paid⟩
  · by_contra hpos
    exact (h.submitting (Nat.pos_of_ne_zero hpos)).2.2.2.2 hrunning
  · intro hnone
    rw [update_record_none hnone] at hreq
    exact absurd hreq (by simp)

theorem Exclusive.upgrade {n : Nat} (h : Exclusive l)
    (hn : n = if l.record.any upgradeRequeues = true then max 1 l.queued else l.queued) :
    Exclusive { l.update recoverAfterUpgrade with queued := n, tasks := [] } := by
  have hrecovered : Exclusive (l.update recoverAfterUpgrade) := by
    apply h.updateStatus Extends.recoverAfterUpgrade
    intro req
    rw [WrapStoredRequest.recoverAfterUpgrade]
    split_ifs with hrunning
    · exact Or.inr (Or.inl ⟨rfl, hrunning.2.1⟩)
    · exact Or.inl rfl
  have hdropped : Exclusive { l.update recoverAfterUpgrade with tasks := [] } := by
    refine ⟨fun hnone => ⟨rfl, (hrecovered.known hnone).2⟩, hrecovered.gas, fun _ htask => ?_, ?_, ?_,
      fun hpos => ?_⟩
    · exact absurd htask List.not_mem_nil
    · exact (Nat.le_add_right _ _).trans hrecovered.alone
    · rintro (hqueued | hworkers | hactive)
      · exact hrecovered.covered (Or.inl hqueued)
      · exact absurd hworkers (by simp [workers])
      · exact hrecovered.covered (Or.inr (Or.inr hactive))
    · exact absurd hpos (by simp [submissions])
  refine hdropped.requeue hn ?_
  intro hneeds
  obtain ⟨req, hreq, hstale⟩ := (Option.any_eq_true _ _).mp hneeds
  have hactive : l.Active := by
    rw [upgradeRequeues, Bool.and_eq_true, upgradeCandidate, decide_eq_true_eq] at hstale
    exact ⟨req, hreq, hstale.1.2⟩
  have hkept : Kept l (l.update recoverAfterUpgrade) := .update Extends.recoverAfterUpgrade
  refine ⟨rfl, rfl, ?_, (h.covered (Or.inr (Or.inr hactive))).imp_left hkept.paid⟩
  intro hnone
  rw [update_record_none hnone] at hreq
  exact absurd hreq (by simp)

end

end Lane

def IsNativeDepositId (c : Crypto) (id : TxId) : Prop :=
  ∃ owner depositId, id = deriveNativeDepositRequestId c owner depositId

def Lane.RepairsUnheld (l : Lane) : Action → Prop
  | .repairStaleOperations now => l.record.any (runStale now) = true → l.workers = 0
  | _ => True

def RepairsUnheld {T : Type} (id : TxId) (s : GatewayState T) : Action → Prop
  | .repairStaleOperations now => ∀ req, s.wrapRequests.get id = some req →
      req.runStale now = true → ∀ task, (id, task) ∈ s.wrapTasks → task.worker = none
  | _ => True

def Action.repairs : Action → Bool
  | .repairStaleOperations _ => true
  | _ => false

theorem RepairsUnheld.ofNotRepairs {T : Type} {id : TxId} {s : GatewayState T} {a : Action}
    (h : a.repairs = false) : RepairsUnheld id s a := by
  cases a with
  | repairStaleOperations now => exact absurd h (by simp [Action.repairs])
  | _ => trivial

theorem RepairsUnheld.lane {T : Type} {id : TxId} {s : GatewayState T} {a : Action}
    (h : RepairsUnheld id s a) : (s.lane id).RepairsUnheld a := by
  cases a with
  | repairStaleOperations now =>
      intro hneeds
      obtain ⟨req, hreq, hstale⟩ := (Option.any_eq_true _ _).mp hneeds
      refine List.countP_eq_zero.mpr ?_
      intro task htask
      obtain ⟨⟨id', task'⟩, hfiltered, rfl⟩ := List.mem_map.mp htask
      obtain ⟨hmem, hid⟩ := List.mem_filter.mp hfiltered
      obtain rfl : id' = id := by simpa using hid
      simp [h req hreq hstale task' hmem]
  | _ => trivial

open Lane in
theorem LaneStep.exclusive {T : Type} {env : Env T} {id : TxId} {c c' : StableState (World T)}
    {a : Action} {l l' : Lane} (hid : ¬ IsNativeDepositId env.crypto id) (hok : l.RepairsUnheld a)
    (h : LaneStep env id c c' a l l') (hl : Exclusive l) : Exclusive l' := by
  have hwrap {task : WrapTask} {l' : Lane} (hresumes : Resumes task l l') : task.deposits = false :=
    hl.wraps task hresumes.task_mem
  have hnative {old new : WrapStoredRequest} (hfound : l.record = some old)
      (hallowed : old.retryNativeDeposit = .ok new) : False :=
    hl.gas old hfound (retryNativeDeposit_ok hallowed).1
  cases h with
  | other => exact hl
  | forget unknown fewer =>
      obtain ⟨htasks, hqueued⟩ := hl.known unknown
      obtain rfl : _ = 0 := Nat.le_zero.mp (hqueued ▸ fewer)
      rw [← hqueued]
      exact hl
  | submit free opens => exact hl.submit free opens
  | unpaid code resumes => exact hl.unpaid resumes
  | paid feeLedgerTxId resumes => exact hl.paid resumes
  | launch found queued executes => exact (hl.dequeue found queued).executes executes
  | unpulled code resumes => exact (hl.resumeWorker resumes rfl).finish.toExclusive
  | pulled resumes starts =>
      exact ((hl.resumeWorker resumes rfl).update
        (fun req => .recordWrapPullSuccess req _ _)).startsMint starts
  | mint resumes submits => exact (hl.resumeWorker resumes rfl).submitsMint submits
  | recover found allowed =>
      obtain ⟨-, time, rfl⟩ := recoverFailedWrap_ok allowed
      have hmarked := hl.replace found (.recoverFailedWrap _ allowed) rfl
      exact Exclusive.suspendRefund (l := Lane.sendRefund _)
        ⟨hmarked.known, hmarked.gas, hmarked.wraps, hmarked.alone, hmarked.covered,
          hmarked.submitting⟩ (by simp [sendRefund])
  | refunded transfer resumes =>
      apply (hl.resume resumes).updateStatus (fun req => .finishRecover req _ transfer)
      intro req
      cases transfer <;> exact Or.inl rfl
  | depositFee _ opens => exact absurd opens.derived hid
  | depositAgain _ opens => exact absurd opens.derived hid
  | depositUnpaid _ resumes => exact absurd (hwrap resumes) (by simp [WrapTask.deposits])
  | depositPaid resumes => exact absurd (hwrap resumes) (by simp [WrapTask.deposits])
  | depositUnpulled _ resumes => exact absurd (hwrap resumes) (by simp [WrapTask.deposits])
  | depositPulled resumes => exact absurd (hwrap resumes) (by simp [WrapTask.deposits])
  | depositLost deposit _ resumes =>
      rcases deposit with rfl | rfl
      · exact absurd (hwrap resumes) (by simp [WrapTask.deposits])
      · exact absurd (hwrap resumes) (by simp [WrapTask.deposits])
  | retry found allowed => exact (hnative found allowed).elim
  | retryRefused _ found allowed => exact (hnative found allowed).elim
  | settle =>
      exact hl.updateStatus (fun req => .settleRequest req _ c')
        (fun req => (status_settleRequest c' _ req).imp_right Or.inr)
  | repair requeued => exact hl.repair hok requeued
  | upgrade requeued => exact hl.upgrade requeued

end Kasane.Gateway
