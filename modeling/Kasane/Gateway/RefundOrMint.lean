import Kasane.Gateway.MintOnce
import Kasane.Gateway.Grounded

namespace Kasane.Gateway

open BigEndian Word Chain Exec
open WrapStoredRequest

variable {T : Type}

namespace WrapStoredRequest

def Decided (req : WrapStoredRequest) : Prop :=
  req.result.mintTxId ≠ none ∨ req.result.mintFailedRecoverable = true

theorem not_decided {req : WrapStoredRequest} (hmint : req.result.mintTxId = none)
    (hrecoverable : req.result.mintFailedRecoverable = false) : ¬ req.Decided := by
  rintro (h | h)
  · exact h hmint
  · rw [hrecoverable] at h
    exact absurd h (by simp)

theorem undecided {req : WrapStoredRequest} (h : ¬ req.Decided) :
    req.result.mintTxId = none ∧ req.result.mintFailedRecoverable = false := by
  rw [Decided, not_or, not_not, Bool.not_eq_true] at h
  exact h

end WrapStoredRequest

def MintFailed (c : StableState (World T)) (req : WrapStoredRequest) : Prop :=
  req.result.status = .failed ∧ ∀ txId, req.result.mintTxId = some txId →
    ∃ receipt, getReceipt c txId = some receipt ∧ receipt.status ≠ 1

inductive Rests (c : StableState (World T)) (old new : WrapStoredRequest) : Prop
  | same (mint : new.result.mintTxId = old.result.mintTxId)
      (status : new.result.status = old.result.status)
      (recoverable : new.result.mintFailedRecoverable = old.result.mintFailedRecoverable)
  | blank (before : ¬ old.Decided) (after : ¬ new.Decided)
  | succeeded (mint : new.result.mintTxId = old.result.mintTxId) (minted : old.Decided)
      (running : old.result.status = .running) (status : new.result.status = .succeeded)
      (recoverable : new.result.mintFailedRecoverable = false)
  | failed (mint : new.result.mintTxId = old.result.mintTxId) (minted : old.Decided)
      (running : old.result.status = .running) (failed : MintFailed c new)
      (recoverable : new.result.mintFailedRecoverable = true)

namespace Lane

structure Payable (c : StableState (World T)) (l : Lane) : Prop extends Exclusive l where
  fresh : ∀ task ∈ l.tasks, ∀ held, task.worker = some held → held.result.mintTxId = none
  closed : ∀ req, l.record = some req → req.Decided → Held l
  live : ∀ req, l.record = some req → req.result.mintTxId ≠ none → req.result.status ≠ .queued
  failed : ∀ req, l.record = some req → req.result.mintFailedRecoverable = true → MintFailed c req
  tracked : ∀ mint ∈ l.mints, ∃ req, l.record = some req ∧ req.result.mintTxId = some mint.txId
  refunded : l.refundSent = true →
    ∃ req, l.record = some req ∧ req.result.mintFailedRecoverable = true

def Open (l : Lane) : Prop := ∀ req, l.record = some req → ¬ req.Decided

variable {c c' : StableState (World T)} {l l' : Lane}

theorem Payable.open_of_notHeld (h : Payable c l) (hheld : ¬ Held l) : Open l :=
  fun req hreq hdecided => hheld (h.closed req hreq hdecided)

theorem Payable.open_of_resumed {task : WrapTask} (h : Payable c l) (hresumes : Resumes task l l')
    (hworker : task.worker.isSome = true) : Open l := by
  apply h.open_of_notHeld
  intro hheld
  obtain ⟨hworkers, -⟩ := hresumes.counts
  rw [if_pos hworker, hheld.free] at hworkers
  omega

theorem Payable.mints_of_open (h : Payable c l) (hopen : Open l) : l.mints = [] := by
  refine List.eq_nil_iff_forall_not_mem.mpr ?_
  intro mint hmint
  obtain ⟨req, hreq, htxId⟩ := h.tracked mint hmint
  exact hopen req hreq (Or.inl (by rw [htxId]; simp))

theorem Payable.refund_of_open (h : Payable c l) (hopen : Open l) : l.refundSent = false := by
  cases hsent : l.refundSent with
  | false => rfl
  | true =>
      obtain ⟨req, hreq, hrecoverable⟩ := h.refunded hsent
      exact absurd (Or.inr hrecoverable) (hopen req hreq)

theorem payable_of_open (hexclusive : Exclusive l)
    (hfresh : ∀ task ∈ l.tasks, ∀ held, task.worker = some held → held.result.mintTxId = none)
    (hopen : Open l) (hmints : l.mints = []) (hrefund : l.refundSent = false) : Payable c l where
  toExclusive := hexclusive
  fresh := hfresh
  closed := fun req hreq hdecided => absurd hdecided (hopen req hreq)
  live := fun req hreq hmint => absurd (Or.inl hmint) (hopen req hreq)
  failed := fun req hreq hrecoverable => absurd (Or.inr hrecoverable) (hopen req hreq)
  tracked := by
    intro mint hmint
    rw [hmints] at hmint
    exact absurd hmint List.not_mem_nil
  refunded := by
    intro hsent
    rw [hrefund] at hsent
    exact absurd hsent (by simp)

theorem Payable.rest (h : Payable c l) (hexclusive : Exclusive l')
    (hreceipts : ∀ id receipt, getReceipt c id = some receipt → getReceipt c' id = some receipt)
    (hrecord : ∀ new, l'.record = some new → ∃ old, l.record = some old ∧ Rests c' old new)
    (hkept : Kept l l') (htasks : ∀ task ∈ l'.tasks, task.worker ≠ none → task ∈ l.tasks)
    (hmints : l'.mints = l.mints)
    (hrefund : l'.refundSent = true → l.refundSent = true ∨ ∃ old, l.record = some old ∧
      old.result.mintFailedRecoverable = true)
    (hheld : ∀ old, l.record = some old → old.Decided → Held l → Held l') : Payable c' l' := by
  have hrests {old : WrapStoredRequest} (hold : l.record = some old) :
      ∃ new, l'.record = some new ∧ Rests c' old new := by
    obtain ⟨new, hnew, -⟩ := hkept old hold
    obtain ⟨found, hfound, hrests⟩ := hrecord new hnew
    obtain rfl := Option.some.inj (hfound.symm.trans hold)
    exact ⟨new, hnew, hrests⟩
  have hfailed {old : WrapStoredRequest} (hold : l.record = some old)
      (hrecoverable : old.result.mintFailedRecoverable = true) : MintFailed c' old := by
    obtain ⟨hstatus, hreceipt⟩ := h.failed old hold hrecoverable
    refine ⟨hstatus, ?_⟩
    intro txId htxId
    obtain ⟨receipt, hget, hne⟩ := hreceipt txId htxId
    exact ⟨receipt, hreceipts txId receipt hget, hne⟩
  refine ⟨hexclusive, ?_, ?_, ?_, ?_, ?_, ?_⟩
  · intro task htask held hheld
    exact h.fresh task (htasks task htask (by rw [hheld]; simp)) held hheld
  · intro req hreq hdecided
    obtain ⟨old, hold, hrest⟩ := hrecord req hreq
    have hbefore : old.Decided := by
      cases hrest with
      | same mint _ recoverable => exact hdecided.imp (mint ▸ ·) (recoverable ▸ ·)
      | blank _ after => exact absurd hdecided after
      | succeeded _ minted => exact minted
      | failed _ minted => exact minted
    exact hheld old hold hbefore (h.closed old hold hbefore)
  · intro req hreq hmint
    obtain ⟨old, hold, hrest⟩ := hrecord req hreq
    cases hrest with
    | same mint status =>
        rw [status]
        exact h.live old hold (mint ▸ hmint)
    | blank _ after => exact absurd (Or.inl hmint) after
    | succeeded _ _ _ status =>
        rw [status]
        simp
    | failed _ _ _ failed =>
        rw [failed.1]
        simp
  · intro req hreq hrecoverable
    obtain ⟨old, hold, hrest⟩ := hrecord req hreq
    cases hrest with
    | same mint status recoverable =>
        obtain ⟨hstatus, hreceipt⟩ := hfailed hold (recoverable ▸ hrecoverable)
        exact ⟨status.trans hstatus, fun txId htxId => hreceipt txId (mint ▸ htxId)⟩
    | blank _ after => exact absurd (Or.inr hrecoverable) after
    | succeeded _ _ _ _ recoverable =>
        rw [recoverable] at hrecoverable
        exact absurd hrecoverable (by simp)
    | failed _ _ _ failed => exact failed
  · intro mint hmint
    rw [hmints] at hmint
    obtain ⟨old, hold, htxId⟩ := h.tracked mint hmint
    obtain ⟨new, hnew, hrest⟩ := hrests hold
    refine ⟨new, hnew, ?_⟩
    cases hrest with
    | same mint => exact mint.trans htxId
    | blank before => exact absurd (Or.inl (by rw [htxId]; simp)) before
    | succeeded mint => exact mint.trans htxId
    | failed mint => exact mint.trans htxId
  · intro hsent
    have hbefore : ∃ old, l.record = some old ∧ old.result.mintFailedRecoverable = true := by
      rcases hrefund hsent with hsent | hbefore
      · exact h.refunded hsent
      · exact hbefore
    obtain ⟨old, hold, hrecoverable⟩ := hbefore
    obtain ⟨new, hnew, hrest⟩ := hrests hold
    refine ⟨new, hnew, ?_⟩
    have hstatus := (h.failed old hold hrecoverable).1
    cases hrest with
    | same _ _ recoverable => exact recoverable.trans hrecoverable
    | blank before => exact absurd (Or.inr hrecoverable) before
    | succeeded _ _ running =>
        rw [hstatus] at running
        exact absurd running (by simp)
    | failed _ _ _ _ recoverable => exact recoverable

theorem rests_settle (c : StableState (World T)) (now : Nat) (req : WrapStoredRequest) :
    Rests c req (GatewayState.settleRequest c now req) := by
  rcases GatewayState.settleRequest_cases c now req with
    hsame | ⟨txId, receipt, hcandidate, hreceipt, hsettled⟩
  · rw [hsame]
    exact .same rfl rfl rfl
  · rw [mintReceiptCandidate] at hcandidate
    split_ifs at hcandidate with hskip
    rw [not_or, not_or, not_not, not_not] at hskip
    have hdecided : req.Decided := Or.inl (by rw [hcandidate]; simp)
    rcases hsettled with ⟨-, hsettled⟩ | ⟨hstatus, hsettled⟩
    · rw [hsettled]
      exact .succeeded rfl hdecided hskip.2.1 rfl rfl
    · rw [hsettled]
      refine .failed rfl hdecided hskip.2.1 ⟨rfl, ?_⟩ rfl
      intro mintTxId hmint
      obtain rfl := Option.some.inj (hcandidate.symm.trans hmint)
      exact ⟨receipt, hreceipt, hstatus⟩

theorem rests_repair (now : Nat) (req : WrapStoredRequest)
    (hfailed : req.result.mintFailedRecoverable = true → req.result.status = .failed) :
    Rests c req (req.repairStale now) := by
  rw [WrapStoredRequest.repairStale]
  split_ifs with hrefund hstale
  · exact .same rfl rfl rfl
  · rw [runStale, Bool.and_eq_true, decide_eq_true_eq] at hstale
    obtain ⟨-, hrunning, -, hmint, -⟩ := hstale
    have hrecoverable : req.result.mintFailedRecoverable = false := by
      by_contra htrue
      rw [hfailed (by simpa using htrue)] at hrunning
      exact absurd hrunning (by simp)
    exact .blank (not_decided hmint hrecoverable) (not_decided hmint hrecoverable)
  · exact .same rfl rfl rfl

theorem rests_upgrade (req : WrapStoredRequest)
    (hfailed : req.result.mintFailedRecoverable = true → req.result.status = .failed) :
    Rests c req req.recoverAfterUpgrade := by
  rw [WrapStoredRequest.recoverAfterUpgrade]
  split_ifs with hrequeued
  · obtain ⟨-, hrunning, houtstanding⟩ := hrequeued
    rw [mintOutstanding, Bool.or_eq_false_iff, Option.isSome_eq_false_iff,
      Option.isNone_iff_eq_none] at houtstanding
    have hrecoverable : req.result.mintFailedRecoverable = false := by
      by_contra htrue
      rw [hfailed (by simpa using htrue)] at hrunning
      exact absurd hrunning (by simp)
    exact .blank (not_decided houtstanding.1 hrecoverable)
      (not_decided houtstanding.1 hrecoverable)
  · exact .same rfl rfl rfl

theorem not_runStale {now : Nat} {req : WrapStoredRequest} (hdecided : req.Decided)
    (hfailed : req.result.mintFailedRecoverable = true → req.result.status = .failed) :
    req.runStale now = false := by
  by_contra hstale
  rw [Bool.not_eq_false, runStale, Bool.and_eq_true, decide_eq_true_eq] at hstale
  obtain ⟨-, hrunning, -, hmint, -⟩ := hstale
  rcases hdecided with hne | hrecoverable
  · exact hne hmint
  · rw [hfailed hrecoverable] at hrunning
    exact absurd hrunning (by simp)

theorem not_upgradeRequeues {req : WrapStoredRequest} (hdecided : req.Decided)
    (hlive : req.result.mintTxId ≠ none → req.result.status ≠ .queued)
    (hfailed : req.result.mintFailedRecoverable = true → req.result.status = .failed) :
    req.upgradeRequeues = false := by
  by_contra hrequeues
  rw [Bool.not_eq_false, upgradeRequeues, Bool.and_eq_true, upgradeCandidate,
    decide_eq_true_eq] at hrequeues
  obtain ⟨⟨-, hactive⟩, houtstanding⟩ := hrequeues
  rcases hdecided with hmint | hrecoverable
  · rcases hactive with hqueued | hrunning
    · exact hlive hmint hqueued
    · simp [hrunning, mintOutstanding, hmint] at houtstanding
  · rw [hfailed hrecoverable] at hactive
    simp at hactive

theorem Held.dropTasks (h : Held l) : Held { l with tasks := [] } := by
  refine ⟨⟨fun hnone => absurd hnone h.found, h.gas, fun _ htask => ?_, ?_, fun _ => h.cover,
    fun hpos => ?_⟩, h.unqueued, rfl, rfl, h.found, h.cover⟩
  · exact absurd htask List.not_mem_nil
  · exact (Nat.le_add_right _ _).trans h.alone
  · exact absurd hpos (by simp [submissions])

theorem Held.noWorker (h : Held l) (task : WrapTask) (htask : task ∈ l.tasks) :
    task.worker = none := by
  simpa using List.countP_eq_zero.mp h.free task htask

theorem payable_of_held (h : Held l)
    (hlive : ∀ req, l.record = some req → req.result.mintTxId ≠ none → req.result.status ≠ .queued)
    (hfailed : ∀ req, l.record = some req → req.result.mintFailedRecoverable = true →
      MintFailed c req)
    (htracked : ∀ mint ∈ l.mints, ∃ req, l.record = some req ∧
      req.result.mintTxId = some mint.txId) (hrefund : l.refundSent = false) : Payable c l where
  toExclusive := h.toExclusive
  fresh := by
    intro task htask held hheld
    rw [h.noWorker task htask] at hheld
    exact absurd hheld (by simp)
  closed := fun _ _ _ => h
  live := hlive
  failed := hfailed
  tracked := htracked
  refunded := by
    intro hsent
    rw [hrefund] at hsent
    exact absurd hsent (by simp)

structure Idle (l : Lane) : Prop extends Held l where
  undecided : Open l
  unminted : l.mints = []
  unsent : l.refundSent = false

theorem Payable.resumed {task : WrapTask} (h : Payable c l) (hresumes : Resumes task l l')
    (hworker : task.worker.isSome = true) : Idle l' := by
  have hheld := h.toExclusive.resumeWorker hresumes hworker
  have hopen := h.open_of_resumed hresumes hworker
  have hmints := h.mints_of_open hopen
  have hrefund := h.refund_of_open hopen
  obtain ⟨before, after, -, rfl⟩ := hresumes
  exact ⟨hheld, hopen, hmints, hrefund⟩

theorem Open.update {f : WrapStoredRequest → WrapStoredRequest} (h : Open l)
    (hf : ∀ req, ¬ req.Decided → ¬ (f req).Decided) : Open (l.update f) := by
  intro req hreq
  obtain ⟨old, hold, rfl⟩ := Option.map_eq_some_iff.mp hreq
  exact hf old (h old hold)

theorem Idle.update {f : WrapStoredRequest → WrapStoredRequest} (h : Idle l)
    (hkept : ∀ req, Extends req (f req)) (hf : ∀ req, ¬ req.Decided → ¬ (f req).Decided) :
    Idle (l.update f) :=
  ⟨h.toHeld.update hkept, h.undecided.update hf, h.unminted, h.unsent⟩

theorem Idle.payable (h : Idle l) : Payable c l :=
  payable_of_open h.toExclusive (fun task htask held hheld => by
    rw [h.toHeld.noWorker task htask] at hheld
    exact absurd hheld (by simp)) h.undecided h.unminted h.unsent

theorem Idle.fails (h : Idle l) {now : Nat} (pull : Option LedgerTxId) (code : String)
    (recoverable : Bool) : Payable c (l.finish now (wrapFailed pull code recoverable)) := by
  have hmint {req : WrapStoredRequest}
      (hreq : (l.finish now (wrapFailed pull code recoverable)).record = some req) :
      req.result.mintTxId = none ∧ req.result.status = .failed := by
    obtain ⟨old, hold, rfl⟩ := Option.map_eq_some_iff.mp hreq
    exact ⟨(WrapStoredRequest.undecided (h.undecided old hold)).1, rfl⟩
  refine payable_of_held h.toHeld.finish ?_ ?_ ?_ h.unsent
  · intro req hreq hne
    exact absurd (hmint hreq).1 hne
  · intro req hreq _
    refine ⟨(hmint hreq).2, ?_⟩
    intro txId htxId
    rw [(hmint hreq).1] at htxId
    exact absurd htxId (by simp)
  · intro mint hmem
    have hnone : (l.finish now (wrapFailed pull code recoverable)).mints = [] := h.unminted
    rw [hnone] at hmem
    exact absurd hmem List.not_mem_nil

theorem Idle.mints (h : Idle l) {id : TxId} {now : Nat} {pullLedgerTxId : LedgerTxId} {txId : TxId}
    {accepted : Bool} : Payable c (l.minted id now pullLedgerTxId txId accepted) := by
  have hrecord {req : WrapStoredRequest}
      (hreq : (l.minted id now pullLedgerTxId txId accepted).record = some req) :
      req.result.mintTxId = some txId ∧ req.result.status = .running ∧
        req.result.mintFailedRecoverable = false := by
    obtain ⟨recorded, -, rfl⟩ := Option.map_eq_some_iff.mp hreq
    exact ⟨rfl, rfl, rfl⟩
  have hheld : Held (l.minted id now pullLedgerTxId txId accepted) := h.toHeld.minted
  refine payable_of_held hheld ?_ ?_ ?_ h.unsent
  · intro req hreq _
    rw [(hrecord hreq).2.1]
    simp
  · intro req hreq hrecoverable
    rw [(hrecord hreq).2.2] at hrecoverable
    exact absurd hrecoverable (by simp)
  · intro mint hmem
    have hmints : (l.minted id now pullLedgerTxId txId accepted).mints = [⟨id, txId, accepted⟩] := by
      rw [Lane.minted, h.unminted]
      rfl
    rw [hmints] at hmem
    obtain rfl := List.mem_singleton.mp hmem
    obtain ⟨req, hreq⟩ := Option.ne_none_iff_exists'.mp hheld.found
    exact ⟨req, hreq, (hrecord hreq).1⟩

theorem Idle.starts (h : Idle l) {now : Nat} {req : WrapStoredRequest}
    {pullLedgerTxId : LedgerTxId} (hfresh : req.result.mintTxId = none)
    (hstarts : StartsMint now req pullLedgerTxId l l') : Payable c l' := by
  cases hstarts with
  | known known =>
      rw [hfresh] at known
      exact absurd known (by simp)
  | unconfigured => exact h.fails _ _ true
  | decimals =>
      refine payable_of_open (h.toHeld.suspend rfl rfl rfl) ?_ h.undecided h.unminted h.unsent
      intro task htask held hheld
      rcases mem_suspend htask with htask | rfl
      · rw [h.toHeld.noWorker task htask] at hheld
        exact absurd hheld (by simp)
      · obtain rfl := Option.some.inj hheld
        exact hfresh

theorem Idle.executes (h : Idle l) {now : Nat} {req : WrapStoredRequest}
    (hfresh : req.result.mintTxId = none) (hexecutes : Executes now req l l') : Payable c l' := by
  have hexclusive : Exclusive l' := h.toHeld.executes hexecutes
  cases hexecutes with
  | pulls _ call =>
      have hmarked := h.update (f := markWrapStage .pullPending .running now)
        (fun req => .markWrapStage req now .pullPending .running) (fun _ hopen => hopen)
      refine payable_of_open hexclusive ?_ hmarked.undecided hmarked.unminted hmarked.unsent
      intro task htask held hheld
      rcases mem_suspend htask with htask | rfl
      · rw [h.toHeld.noWorker task htask] at hheld
        exact absurd hheld (by simp)
      · obtain rfl := Option.some.inj hheld
        exact hfresh
  | mints _ starts => exact h.starts hfresh starts

theorem Idle.submits {env : Env T} {id : TxId} {now : Nat} {factory : Address}
    {req : WrapStoredRequest} {pullLedgerTxId : LedgerTxId} {d d' : StableState (World T)}
    (h : Idle l) (hsubmits : SubmitsMint env id now factory req pullLedgerTxId d l d' l') :
    Payable c l' := by
  have hsubmitting (nonce : UInt64) : Idle (l.update (recordWrapMintSubmitting nonce now)) :=
    h.update (fun req => .recordWrapMintSubmitting req now nonce) (fun _ hopen => hopen)
  cases hsubmits with
  | stopped code => exact h.fails _ code true
  | unpriced nonce code => exact (hsubmitting nonce).fails _ code true
  | accepted => exact (hsubmitting _).mints
  | duplicate => exact (hsubmitting _).mints
  | rejected _ code => exact (hsubmitting _).fails _ code true

theorem Payable.submit {now call : Nat} {req : WrapStoredRequest} (h : Payable c l)
    (hfree : l.pending = false) (hopens : OpensWrap l.record now req) :
    Payable c' ((l.reserve req).suspend (.submitFee call)) := by
  have hopen : Open l := by
    apply h.open_of_notHeld
    intro hheld
    rcases hheld.cover with ⟨old, hold, hfee⟩ | hpending
    · rcases hopens.opened with hsome | ⟨hnone, -⟩
      · obtain rfl := Option.some.inj (hsome.symm.trans hold)
        exact hfee hopens.unpaid
      · exact hheld.found hnone
    · rw [hfree] at hpending
      exact absurd hpending (by simp)
  refine payable_of_open (h.toExclusive.submit hfree hopens) ?_ ?_ (h.mints_of_open hopen)
    (h.refund_of_open hopen)
  · intro task htask held hheld
    rcases mem_suspend htask with htask | rfl
    · exact h.fresh task htask held hheld
    · exact absurd hheld (by simp [WrapTask.worker])
  · intro found hfound
    obtain rfl := Option.some.inj hfound
    rcases hopens.opened with hsome | ⟨-, args, caller, quote, rfl⟩
    · exact hopen _ hsome
    · exact not_decided rfl rfl

theorem Payable.resumeSubmission {call : Nat} (h : Payable c l)
    (hresumes : Resumes (.submitFee call) l l') :
    Open l' ∧ l'.mints = [] ∧ l'.refundSent = false ∧
      ∀ task ∈ l'.tasks, ∀ held, task.worker = some held → held.result.mintTxId = none := by
  have hopen : Open l := by
    apply h.open_of_notHeld
    intro hheld
    obtain ⟨-, hsubmissions⟩ := hresumes.counts
    rw [hheld.quiet] at hsubmissions
    change 0 = l'.submissions + 1 at hsubmissions
    omega
  have hmints := h.mints_of_open hopen
  have hrefund := h.refund_of_open hopen
  have hfresh (task : WrapTask) (htask : task ∈ l'.tasks) := h.fresh task (hresumes.mem htask)
  obtain ⟨before, after, -, rfl⟩ := hresumes
  exact ⟨hopen, hmints, hrefund, hfresh⟩

theorem Payable.unpaid {now call : Nat} {code : String} (h : Payable c l)
    (hresumes : Resumes (.submitFee call) l l') : Payable c' (l'.failDeposit now code) := by
  obtain ⟨hopen, hmints, hrefund, hfresh⟩ := h.resumeSubmission hresumes
  refine payable_of_open (h.toExclusive.unpaid hresumes) hfresh ?_ hmints hrefund
  apply hopen.update (f := recordWrapRequestFailure code false now)
  intro req hundecided
  exact not_decided (undecided hundecided).1 rfl

theorem Payable.paid {now call : Nat} {feeLedgerTxId : LedgerTxId} (h : Payable c l)
    (hresumes : Resumes (.submitFee call) l l') :
    Payable c' ((l'.update (recordWrapFeeCollected feeLedgerTxId now)).enqueueOnce).release := by
  obtain ⟨hopen, hmints, hrefund, hfresh⟩ := h.resumeSubmission hresumes
  refine payable_of_open (h.toExclusive.paid hresumes) hfresh ?_ hmints hrefund
  exact hopen.update (f := recordWrapFeeCollected feeLedgerTxId now) (fun _ hundecided => hundecided)

theorem Payable.launch {now : Nat} {req : WrapStoredRequest} (h : Payable c l)
    (hfound : l.record = some req) (hqueued : 0 < l.queued)
    (hexecutes : Executes now (req.markRunning now)
      { l with queued := l.queued - 1, record := some (req.markRunning now) } l') :
    Payable c' l' := by
  have hopen : Open l := by
    apply h.open_of_notHeld
    intro hheld
    exact absurd hheld.unqueued (Nat.ne_of_gt hqueued)
  have hidle : Idle { l with queued := l.queued - 1, record := some (req.markRunning now) } := by
    refine ⟨h.toExclusive.dequeue hfound hqueued, ?_, h.mints_of_open hopen, h.refund_of_open hopen⟩
    intro found hrunning
    obtain rfl := Option.some.inj hrunning
    exact hopen req hfound
  have hmint : (req.markRunning now).result.mintTxId = none := (undecided (hopen req hfound)).1
  exact hidle.executes hmint hexecutes

theorem Held.replace {old new : WrapStoredRequest} (h : Held l) (hfound : l.record = some old)
    (hextends : Extends old new) : Held { l with record := some new } := by
  have hkept : Kept l { l with record := some new } := .replace hfound rfl hextends
  have hcover := h.cover.imp_left hkept.paid
  refine ⟨⟨fun hnone => absurd hnone (by simp), gas_of_kept h.toExclusive hkept h.found, h.wraps,
    h.alone, fun _ => hcover, fun hpos => ?_⟩, h.unqueued, h.free, h.quiet, by simp, hcover⟩
  exact absurd h.quiet (Nat.ne_of_gt hpos)

theorem Held.suspendRefund {call : Nat} (h : Held l) : Held (l.suspend (.refund call)) := by
  have hworkers := workers_suspend (l := l) (.refund call)
  have hsubmissions := submissions_suspend (l := l) (.refund call)
  rw [h.free] at hworkers
  rw [h.quiet] at hsubmissions
  exact ⟨h.toExclusive.suspendRefund h.found, h.unqueued, hworkers, hsubmissions, h.found, h.cover⟩

theorem Payable.recover {now call : Nat} {old req : WrapStoredRequest} (h : Payable c l)
    (hreceipts : ∀ id receipt, getReceipt c id = some receipt → getReceipt c' id = some receipt)
    (hfound : l.record = some old) (hallowed : old.recoverFailedWrap now = .ok req)
    (hexclusive : Exclusive ({ l with record := some req }.sendRefund.suspend (.refund call))) :
    Payable c' ({ l with record := some req }.sendRefund.suspend (.refund call)) := by
  obtain ⟨hrecover, time, heq⟩ := recoverFailedWrap_ok hallowed
  have hextends : Extends old req := .recoverFailedWrap now hallowed
  have hrests : Rests c' old req := by
    rw [heq]
    exact .same rfl rfl rfl
  refine h.rest hexclusive hreceipts ?_ (.replace hfound rfl hextends) ?_ rfl
    (fun _ => Or.inr ⟨old, hfound, hrecover.2.2.1⟩) ?_
  · intro new hnew
    obtain rfl := Option.some.inj hnew
    exact ⟨old, hfound, hrests⟩
  · intro task htask hworker
    rcases mem_suspend htask with htask | rfl
    · exact htask
    · exact absurd rfl hworker
  · intro _ _ _ hheld
    have hreplaced := hheld.replace hfound hextends
    have hsent : Held ({ l with record := some req } : Lane).sendRefund :=
      ⟨⟨hreplaced.known, hreplaced.gas, hreplaced.wraps, hreplaced.alone, hreplaced.covered,
        hreplaced.submitting⟩, hreplaced.unqueued, hreplaced.free, hreplaced.quiet,
          hreplaced.found, hreplaced.cover⟩
    exact hsent.suspendRefund

theorem Payable.update {f : WrapStoredRequest → WrapStoredRequest} (h : Payable c l)
    (hreceipts : ∀ id receipt, getReceipt c id = some receipt → getReceipt c' id = some receipt)
    (hexclusive : Exclusive (l.update f)) (hf : ∀ req, Extends req (f req))
    (hrests : ∀ req, l.record = some req → Rests c' req (f req)) : Payable c' (l.update f) := by
  refine h.rest hexclusive hreceipts ?_ (.update hf) (fun _ htask _ => htask) rfl Or.inl
    (fun _ _ _ hheld => hheld.update hf)
  intro new hnew
  obtain ⟨old, hold, rfl⟩ := Option.map_eq_some_iff.mp hnew
  exact ⟨old, hold, hrests old hold⟩

theorem Payable.resumeRefund {call : Nat} (h : Payable c l)
    (hresumes : Resumes (.refund call) l l') : Payable c l' := by
  have hexclusive := h.toExclusive.resume hresumes
  obtain ⟨hworkers, hsubmissions⟩ := hresumes.counts
  change l.workers = l'.workers + 0 at hworkers
  change l.submissions = l'.submissions + 0 at hsubmissions
  have hmem (task : WrapTask) (htask : task ∈ l'.tasks) : task ∈ l.tasks := hresumes.mem htask
  obtain ⟨before, after, -, rfl⟩ := hresumes
  refine h.rest hexclusive (fun _ _ hreceipt => hreceipt) ?_ (.same rfl)
    (fun task htask _ => hmem task htask) rfl Or.inl ?_
  · intro req hreq
    exact ⟨req, hreq, .same rfl rfl rfl⟩
  · intro _ _ _ hheld
    refine ⟨hexclusive, hheld.unqueued, ?_, ?_, hheld.found, hheld.cover⟩
    · rw [hheld.free] at hworkers
      omega
    · rw [hheld.quiet] at hsubmissions
      omega

theorem Payable.refunds {now call : Nat} {transfer : Except String LedgerTxId} (h : Payable c l)
    (hreceipts : ∀ id receipt, getReceipt c id = some receipt → getReceipt c' id = some receipt)
    (hresumes : Resumes (.refund call) l l')
    (hexclusive : Exclusive (l'.update (finishRecover transfer now))) :
    Payable c' (l'.update (finishRecover transfer now)) := by
  refine (h.resumeRefund hresumes).update hreceipts hexclusive
    (fun req => .finishRecover req now transfer) ?_
  intro req _
  cases transfer <;> exact .same rfl rfl rfl

theorem update_update (l : Lane) (f g : WrapStoredRequest → WrapStoredRequest) :
    (l.update f).update g = l.update (fun req => g (f req)) := by
  simp only [Lane.update, Option.map_map]
  rfl

theorem Payable.settle {now : Nat} (h : Payable c l)
    (hreceipts : ∀ id receipt, getReceipt c id = some receipt → getReceipt c' id = some receipt) :
    Payable c' (l.update (GatewayState.settleRequest c' now)) := by
  have hexclusive : Exclusive (l.update (GatewayState.settleRequest c' now)) :=
    h.toExclusive.updateStatus (fun req => .settleRequest req now c')
      (fun req => (status_settleRequest c' now req).imp_right Or.inr)
  exact h.update hreceipts hexclusive (fun req => .settleRequest req now c')
    (fun req _ => rests_settle c' now req)

theorem Payable.repair {now n : Nat} (h : Payable c l)
    (hreceipts : ∀ id receipt, getReceipt c id = some receipt → getReceipt c' id = some receipt)
    (hn : n = if l.record.any (runStale now) = true then max 1 l.queued else l.queued)
    (hexclusive : Exclusive { l.update (fun req =>
      (GatewayState.settleRequest c now req).repairStale now) with queued := n }) :
    Payable c' { l.update (fun req => (GatewayState.settleRequest c now req).repairStale now) with
      queued := n } := by
  have hsettled : Payable c (l.update (GatewayState.settleRequest c now)) :=
    h.settle (fun _ _ hreceipt => hreceipt)
  have hfailed {old : WrapStoredRequest}
      (hold : (l.update (GatewayState.settleRequest c now)).record = some old)
      (hrecoverable : old.result.mintFailedRecoverable = true) : old.result.status = .failed :=
    (hsettled.failed old hold hrecoverable).1
  have hkept : Kept (l.update (GatewayState.settleRequest c now))
      ((l.update (GatewayState.settleRequest c now)).update (WrapStoredRequest.repairStale now)) :=
    .update (fun req => .repairStale req now)
  rw [← update_update] at hexclusive ⊢
  refine hsettled.rest hexclusive hreceipts ?_ hkept (fun _ htask _ => htask) rfl Or.inl ?_
  · intro new hnew
    obtain ⟨old, hold, rfl⟩ := Option.map_eq_some_iff.mp hnew
    exact ⟨old, hold, rests_repair now old (hfailed hold)⟩
  · intro old hold hdecided hheld
    have hstale : runStale now old = false := not_runStale hdecided (hfailed hold)
    have hkeep : n = l.queued := by
      obtain ⟨req, hreq, rfl⟩ := Option.map_eq_some_iff.mp hold
      rw [GatewayState.runStale_settleRequest] at hstale
      rw [hn, hreq, Option.any_some, hstale]
      rfl
    rw [hkeep]
    exact hheld.update (fun req => .repairStale req now)

theorem Payable.upgrade {n : Nat} (h : Payable c l)
    (hreceipts : ∀ id receipt, getReceipt c id = some receipt → getReceipt c' id = some receipt)
    (hn : n = if l.record.any upgradeRequeues = true then max 1 l.queued else l.queued)
    (hexclusive : Exclusive { l.update recoverAfterUpgrade with queued := n, tasks := [] }) :
    Payable c' { l.update recoverAfterUpgrade with queued := n, tasks := [] } := by
  have hfailed {old : WrapStoredRequest} (hold : l.record = some old)
      (hrecoverable : old.result.mintFailedRecoverable = true) : old.result.status = .failed :=
    (h.failed old hold hrecoverable).1
  have hkept : Kept l { l.update recoverAfterUpgrade with queued := n, tasks := [] } :=
    (Kept.update Extends.recoverAfterUpgrade).trans (.same rfl)
  refine h.rest hexclusive hreceipts ?_ hkept (fun _ htask _ => absurd htask List.not_mem_nil) rfl
    Or.inl ?_
  · intro new hnew
    obtain ⟨old, hold, rfl⟩ := Option.map_eq_some_iff.mp hnew
    exact ⟨old, hold, rests_upgrade old (hfailed hold)⟩
  · intro old hold hdecided hheld
    have hrequeues := not_upgradeRequeues hdecided (h.live old hold) (hfailed hold)
    have hkeep : n = l.queued := by
      rw [hn, hold, Option.any_some, hrequeues]
      rfl
    rw [hkeep]
    exact (hheld.update Extends.recoverAfterUpgrade).dropTasks

end Lane

open Lane in
theorem LaneStep.payable {env : Env T} {id : TxId} {c c' : StableState (World T)} {a : Action}
    {l l' : Lane} (hid : ¬ IsNativeDepositId env.crypto id) (hok : l.RepairsUnheld a)
    (hreceipts : ∀ id receipt, getReceipt c id = some receipt → getReceipt c' id = some receipt)
    (h : LaneStep env id c c' a l l') (hl : Payable c l) : Payable c' l' := by
  have hexclusive := h.exclusive hid hok hl.toExclusive
  have hwrap {task : WrapTask} {l' : Lane} (hresumes : Resumes task l l') : task.deposits = false :=
    hl.wraps task hresumes.task_mem
  have hnative {old new : WrapStoredRequest} (hfound : l.record = some old)
      (hallowed : old.retryNativeDeposit = .ok new) : False :=
    hl.gas old hfound (retryNativeDeposit_ok hallowed).1
  cases h with
  | other =>
      refine hl.rest hexclusive hreceipts ?_ (.same rfl) (fun _ htask _ => htask) rfl Or.inl
        (fun _ _ _ hheld => hheld)
      exact fun req hreq => ⟨req, hreq, .same rfl rfl rfl⟩
  | forget unknown =>
      refine hl.rest hexclusive hreceipts ?_ (.same rfl) (fun _ htask _ => htask) rfl Or.inl ?_
      · exact fun req hreq => ⟨req, hreq, .same rfl rfl rfl⟩
      · intro old hold
        rw [unknown] at hold
        exact absurd hold (by simp)
  | submit free opens => exact hl.submit free opens
  | unpaid code resumes => exact hl.unpaid resumes
  | paid feeLedgerTxId resumes => exact hl.paid resumes
  | launch found queued executes => exact hl.launch found queued executes
  | unpulled code resumes => exact (hl.resumed resumes rfl).fails _ code false
  | pulled resumes starts =>
      have hfresh := hl.fresh _ resumes.task_mem _ rfl
      exact ((hl.resumed resumes rfl).update (fun req => .recordWrapPullSuccess req _ _)
        (fun _ hundecided => hundecided)).starts hfresh starts
  | mint resumes submits => exact (hl.resumed resumes rfl).submits submits
  | recover found allowed => exact hl.recover hreceipts found allowed hexclusive
  | refunded transfer resumes => exact hl.refunds hreceipts resumes hexclusive
  | depositFee _ opens => exact absurd opens.derived hid
  | depositAgain _ opens => exact absurd opens.derived hid
  | depositUnpaid _ resumes => exact absurd (hwrap resumes) (by simp [WrapTask.deposits])
  | depositPaid resumes => exact absurd (hwrap resumes) (by simp [WrapTask.deposits])
  | depositUnpulled _ resumes => exact absurd (hwrap resumes) (by simp [WrapTask.deposits])
  | depositPulled resumes => exact absurd (hwrap resumes) (by simp [WrapTask.deposits])
  | depositLost deposit _ resumes =>
      rcases deposit with rfl | rfl
      · exact absurd (hwrap resumes) (by simp [WrapTask.deposits])
      · exact absurd (hwrap resumes) (by simp [WrapTask.deposits])
  | retry found allowed => exact (hnative found allowed).elim
  | retryRefused _ found allowed => exact (hnative found allowed).elim
  | settle => exact hl.settle hreceipts
  | repair requeued => exact hl.repair hreceipts requeued hexclusive
  | upgrade requeued => exact hl.upgrade hreceipts requeued hexclusive

def MintIncluded (s : GatewayState T) (id : TxId) : Prop :=
  ∃ mint ∈ s.mints, mint.requestId = id ∧
    ∃ receipt, getReceipt s.chain mint.txId = some receipt ∧ receipt.status = 1

def Refunded (s : GatewayState T) (id : TxId) : Prop :=
  ∃ call ∈ s.calls, call.origin = .refund id ∧ call.moved = true

instance (s : GatewayState T) (id : TxId) : Decidable (MintIncluded s id) :=
  decidable_of_iff (s.mints.any (fun mint => decide (mint.requestId = id) &&
    (getReceipt s.chain mint.txId).any (fun receipt => decide (receipt.status = 1))) = true)
    (by simp [MintIncluded, Option.any_eq_true])

instance (s : GatewayState T) (id : TxId) : Decidable (Refunded s id) :=
  decidable_of_iff (s.calls.any (fun call => decide (call.origin = .refund id) && call.moved) = true)
    (by simp [Refunded])

open GatewayState

theorem refund_or_mint {env : Env T} {world : World T} {config : WrapConfig}
    {ledgers : Principal → DedupLedger.Ledger Principal} {id : TxId}
    (hid : ¬ IsNativeDepositId env.crypto id) {s : GatewayState T}
    (run : Run env (RepairsUnheld id) (init world config ledgers) s) :
    ¬ (MintIncluded s id ∧ Refunded s id) := by
  have hinv : Grounded env.crypto s.chain ∧ (s.lane id).Payable s.chain := by
    refine run_invariant (fun s => Grounded env.crypto s.chain ∧ (s.lane id).Payable s.chain) ?_ ?_ run
    · refine ⟨grounded_init env.crypto world, ?_⟩
      exact Lane.payable_of_open Lane.exclusive_start (fun _ htask => absurd htask List.not_mem_nil)
        (fun _ hreq => absurd hreq (by simp [lane_init, Lane.start])) rfl rfl
    · intro s t a hinv hok _ hdone
      have hchain := perform_chain hdone
      exact ⟨hchain.grounded hinv.1, (perform_lane hdone id).payable hid hok.lane
        (fun _ _ hreceipt => hchain.getReceipt hinv.1 hreceipt) hinv.2⟩
  obtain ⟨-, hlane⟩ := hinv
  rintro ⟨⟨mint, hmint, hof, receipt, hreceipt, hsucceeded⟩, ⟨call, hcall, horigin, -⟩⟩
  have hmem : mint ∈ (s.lane id).mints := List.mem_filter.mpr ⟨hmint, by simpa using hof⟩
  have hsent : (s.lane id).refundSent = true :=
    List.any_eq_true.mpr ⟨call, hcall, by simpa using horigin⟩
  obtain ⟨req, hreq, htxId⟩ := hlane.tracked mint hmem
  obtain ⟨found, hfound, hrecoverable⟩ := hlane.refunded hsent
  obtain rfl := Option.some.inj (hfound.symm.trans hreq)
  -- the mint of a recoverable request has a receipt, and it is not a success
  obtain ⟨failed, hfailed, hne⟩ := (hlane.failed _ hreq hrecoverable).2 mint.txId htxId
  obtain rfl := Option.some.inj (hreceipt.symm.trans hfailed)
  exact hne hsucceeded

section

theorem refund_or_mint_run :
    ∃ s, Run sampleGateway (RepairsUnheld sampleWrapId) sampleStart s ∧
      MintIncluded s sampleWrapId ∧ ¬ (MintIncluded s sampleWrapId ∧ Refunded s sampleWrapId) := by
  have hok : ∀ a ∈ submitAndPay ++ pullAndMint ++ [.miningTick 1 sampleEnv],
      ∀ s : GatewayState Unit, RepairsUnheld sampleWrapId s a := by
    intro a ha s
    have hrepair := (by decide : ∀ a ∈ submitAndPay ++ pullAndMint ++ [.miningTick 1 sampleEnv],
      a.repairs = false) a ha
    exact .ofNotRepairs hrepair
  obtain ⟨s, hrun, hminted⟩ := run_of_any sampleGateway
    (submitAndPay ++ pullAndMint ++ [.miningTick 1 sampleEnv]) sampleStart
    (fun s => decide (MintIncluded s sampleWrapId)) (by decide) hok (by decide +kernel)
  exact ⟨s, hrun, of_decide_eq_true hminted, refund_or_mint sampleWrapId_not_deposit hrun⟩

theorem refund_after_mint :
    ∃ s, Run sampleGateway (fun _ _ => True) sampleStart s ∧ MintIncluded s sampleWrapId ∧
      Refunded s sampleWrapId := by
  obtain ⟨s, hrun, hboth⟩ := run_of_any sampleGateway (submitAndPay ++ overlappingWorkers ++
      [.miningTick laterThanStale sampleEnv, .resumeWrap laterThanStale 0 (.ledger .delivered),
        .resumeWrap laterThanStale 0 (.mint ⟨.error "mint.decimals_failed", .ok 0⟩),
        .recoverFailedWrap laterThanStale sampleWrapId, .ledgerExecutes laterThanStale 3 none])
    sampleStart
    (fun s => decide (MintIncluded s sampleWrapId ∧ Refunded s sampleWrapId))
    (by decide) (fun _ _ _ => trivial) (by decide +kernel)
  exact ⟨s, hrun, of_decide_eq_true hboth⟩

end

end Kasane.Gateway
