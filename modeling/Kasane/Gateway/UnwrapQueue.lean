import Kasane.Gateway.Quarantine
import Kasane.Gateway.UnwrapRecords

namespace Kasane.Gateway

open BigEndian Codec Word Chain Exec
open UnwrapDispatchRequest UnwrapLane

variable {T : Type}

inductive Orderly : UnwrapLane → Prop
  | unknown : Orderly ⟨none, 0, []⟩
  | waiting {req : UnwrapDispatchRequest} (queued : req.status = .queued) : Orderly ⟨some req, 1, []⟩
  | awaiting {req : UnwrapDispatchRequest} (task : DispatchTask)
      (popped : req.status = .dispatching ∨ req.isDecodeFailedUnwrapRequest = true)
      (unqueued : req.status ≠ .queued) : Orderly ⟨some req, 0, [task]⟩
  | settled {req : UnwrapDispatchRequest} (unqueued : req.status ≠ .queued) : Orderly ⟨some req, 0, []⟩
  | unreadable {req : UnwrapDispatchRequest} (unqueued : req.status ≠ .queued)
      (corrupt : req.isDecodeFailedUnwrapRequest = true) : Orderly ⟨some req, 1, []⟩

namespace UnwrapDispatchRequest

variable {now : Nat} {req : UnwrapDispatchRequest}

theorem finalize_unqueued (applied : Except String LedgerTxId) :
    (req.finalizeUnwrapDispatchAttempt now applied).status ≠ .queued := by
  cases applied with
  | error code => exact fun h => absurd h (by simp [finalizeUnwrapDispatchAttempt])
  | ok ledgerTxId => exact fun h => absurd h (by simp [finalizeUnwrapDispatchAttempt])

theorem repairStale_of_stale (h : req.dispatchStale now = true) :
    (req.repairStale now).status = .queued := by
  rw [repairStale, if_pos h]

theorem repairStale_of_fresh (h : req.dispatchStale now = false) : req.repairStale now = req :=
  if_neg (by simp [h])

theorem quarantined_unqueued : (req.quarantine now).status ≠ .queued :=
  fun h => absurd h (by simp [UnwrapDispatchRequest.quarantine])

theorem recoverAfterUpgrade_waiting (h : req.upgradeRequeues = true) :
    (req.recoverAfterUpgrade now).status = .queued := by
  rw [recoverAfterUpgrade]
  split_ifs with hstatus
  · rfl
  · exact (of_decide_eq_true h).resolve_right hstatus

theorem recoverAfterUpgrade_settled (h : req.upgradeRequeues = false) :
    (req.recoverAfterUpgrade now).status ≠ .queued := by
  obtain ⟨hqueued, hdispatching⟩ := not_or.mp (of_decide_eq_false h)
  rw [recoverAfterUpgrade, if_neg hdispatching]
  exact hqueued

end UnwrapDispatchRequest

namespace Orderly

variable {R : TxId} {suspended : List (TxId × DispatchTask)} {a : Action} {l m l' : UnwrapLane}
  {now : Nat}

theorem dispatches {req : UnwrapDispatchRequest} (hstatus : req.status = .dispatching)
    (h : Dispatches now ⟨some req, 0, []⟩ l') : Orderly l' := by
  cases h with
  | refused code => exact .settled (finalize_unqueued _)
  | suspended task => exact .awaiting task (Or.inl hstatus) (by simp [hstatus])

theorem resumes {task : DispatchTask} (h : Orderly l) (resumes : Resumes task l m)
    (continues : Continues now m l') : Orderly l' := by
  obtain ⟨before, after, htasks, rfl⟩ := resumes
  cases h with
  | unknown => exact absurd htasks (by simp)
  | waiting => exact absurd htasks (by simp)
  | settled => exact absurd htasks (by simp)
  | unreadable => exact absurd htasks (by simp)
  | awaiting held popped unqueued =>
      obtain ⟨rfl, rfl⟩ : before = [] ∧ after = [] := by
        have hlength := congrArg List.length htasks
        simp only [List.length_append, List.length_cons, List.length_nil] at hlength
        exact ⟨List.eq_nil_of_length_eq_zero (by omega), List.eq_nil_of_length_eq_zero (by omega)⟩
      cases continues with
      | finished applied => exact .settled (finalize_unqueued applied)
      | sent call => exact .awaiting _ popped unqueued

theorem repaired (h : Orderly l)
    (idle : ∀ req, l.record = some req → req.dispatchStale now = true → l.tasks = []) :
    Orderly ((l.requeue (dispatchStale now)).update (UnwrapDispatchRequest.repairStale now)) := by
  have hkept {req : UnwrapDispatchRequest} {n : Nat} {tasks : List DispatchTask}
      (hfresh : req.dispatchStale now = false) :
      ((⟨some req, n, tasks⟩ : UnwrapLane).requeue (dispatchStale now)).update
        (UnwrapDispatchRequest.repairStale now) = ⟨some req, n, tasks⟩ := by
    simp [UnwrapLane.requeue, UnwrapLane.update, hfresh, repairStale_of_fresh hfresh]
  have hrequeued {req : UnwrapDispatchRequest} {n : Nat} (hn : n ≤ 1)
      (hstale : req.dispatchStale now = true) :
      Orderly (((⟨some req, n, []⟩ : UnwrapLane).requeue (dispatchStale now)).update
        (UnwrapDispatchRequest.repairStale now)) := by
    have hlane : ((⟨some req, n, []⟩ : UnwrapLane).requeue (dispatchStale now)).update
        (UnwrapDispatchRequest.repairStale now) = ⟨some (req.repairStale now), 1, []⟩ := by
      simp [UnwrapLane.requeue, UnwrapLane.update, hstale, hn]
    rw [hlane]
    exact .waiting (repairStale_of_stale hstale)
  cases h with
  | unknown => exact .unknown
  | @waiting req queued =>
      rw [hkept (by simp [dispatchStale, queued])]
      exact .waiting queued
  | @awaiting req task popped unqueued =>
      cases hstale : req.dispatchStale now with
      | true => exact absurd (idle req rfl hstale) (by simp)
      | false =>
          rw [hkept hstale]
          exact .awaiting task popped unqueued
  | @settled req unqueued =>
      cases hstale : req.dispatchStale now with
      | true => exact hrequeued (Nat.zero_le 1) hstale
      | false =>
          rw [hkept hstale]
          exact .settled unqueued
  | @unreadable req unqueued corrupt =>
      cases hstale : req.dispatchStale now with
      | true => exact hrequeued (le_refl 1) hstale
      | false =>
          rw [hkept hstale]
          exact .unreadable unqueued corrupt

theorem upgraded_of {req : UnwrapDispatchRequest} {n : Nat} {tasks : List DispatchTask} (hn : n ≤ 1)
    (hclear : req.status ≠ .queued → req.isDecodeFailedUnwrapRequest = false → n = 0) :
    Orderly { (((⟨some req, n, tasks⟩ : UnwrapLane).quarantine now).requeue upgradeRequeues).update
      (recoverAfterUpgrade now) with tasks := [] } := by
  cases hcorrupt : req.isDecodeFailedUnwrapRequest with
  | true =>
      have hlane : { (((⟨some req, n, tasks⟩ : UnwrapLane).quarantine now).requeue
          upgradeRequeues).update (recoverAfterUpgrade now) with tasks := [] } =
            (⟨some (req.quarantine now), 0, []⟩ : UnwrapLane) := by
        simp [UnwrapLane.quarantine, UnwrapLane.requeue, UnwrapLane.update, hcorrupt,
          quarantineDecodeFailed, UnwrapDispatchRequest.quarantine, upgradeRequeues,
          recoverAfterUpgrade]
      rw [hlane]
      exact .settled quarantined_unqueued
  | false =>
      have hlane : { (((⟨some req, n, tasks⟩ : UnwrapLane).quarantine now).requeue
          upgradeRequeues).update (recoverAfterUpgrade now) with tasks := [] } =
            (⟨some (req.recoverAfterUpgrade now),
              if req.upgradeRequeues = true then max 1 n else n, []⟩ : UnwrapLane) := by
        simp [UnwrapLane.quarantine, UnwrapLane.requeue, UnwrapLane.update, hcorrupt,
          quarantineDecodeFailed]
      rw [hlane]
      cases hrequeues : req.upgradeRequeues with
      | true =>
          rw [if_pos rfl, Nat.max_eq_left hn]
          exact .waiting (recoverAfterUpgrade_waiting hrequeues)
      | false =>
          have hqueued := (not_or.mp (of_decide_eq_false hrequeues)).1
          rw [if_neg (by simp), hclear hqueued hcorrupt]
          exact .settled (recoverAfterUpgrade_settled hrequeues)

theorem upgraded (h : Orderly l) :
    Orderly { ((l.quarantine now).requeue upgradeRequeues).update (recoverAfterUpgrade now) with
      tasks := [] } := by
  cases h with
  | unknown => exact .unknown
  | waiting queued => exact upgraded_of (le_refl 1) (fun unqueued => absurd queued unqueued)
  | awaiting => exact upgraded_of (Nat.zero_le 1) (fun _ _ => rfl)
  | settled => exact upgraded_of (Nat.zero_le 1) (fun _ _ => rfl)
  | unreadable _ corrupt =>
      apply upgraded_of (le_refl 1)
      intro _ sound
      exact absurd (corrupt.symm.trans sound) (by simp)

theorem popped {req : UnwrapDispatchRequest} {n : Nat} (h : Orderly l) (hfound : l.record = some req)
    (hqueued : l.queued = n + 1) : n = 0 ∧ l.tasks = [] := by
  cases h with
  | unknown => exact absurd hfound (by simp)
  | waiting => exact ⟨(Nat.succ.inj hqueued).symm, rfl⟩
  | awaiting => exact absurd hqueued (by simp)
  | settled => exact absurd hqueued (by simp)
  | unreadable => exact ⟨(Nat.succ.inj hqueued).symm, rfl⟩

theorem retried {req : UnwrapDispatchRequest} (h : Orderly l) (hfound : l.record = some req)
    (hfailed : req.status = .dispatchFailed) (hsound : req.isDecodeFailedUnwrapRequest = false) :
    Orderly { l.push with record := some (req.retry now) } := by
  cases h with
  | unknown => exact absurd hfound (by simp)
  | waiting queued =>
      obtain rfl := Option.some.inj hfound
      exact absurd (queued.symm.trans hfailed) (by simp)
  | awaiting task popped =>
      obtain rfl := Option.some.inj hfound
      rcases popped with hdispatching | hcorrupt
      · exact absurd (hdispatching.symm.trans hfailed) (by simp)
      · exact absurd (hcorrupt.symm.trans hsound) (by simp)
  | settled => exact .waiting rfl
  | unreadable unqueued corrupt =>
      obtain rfl := Option.some.inj hfound
      exact absurd (corrupt.symm.trans hsound) (by simp)

theorem step (h : Orderly l) (step : UnwrapStep R suspended a l l')
    (idle : ∀ now, a = .repairStaleOperations now → ∀ req, l.record = some req →
      req.dispatchStale now = true → l.tasks = [])
    (readable : ∀ now, a = .retryUnwrapDispatch now R → ∀ req, l.record = some req →
      req.isDecodeFailedUnwrapRequest = false) : Orderly l' := by
  cases step with
  | other => exact h
  | opened _ fresh assetId amount recipient now =>
      cases h with
      | unknown => exact .waiting rfl
      | waiting => exact absurd fresh (by simp)
      | awaiting => exact absurd fresh (by simp)
      | settled => exact absurd fresh (by simp)
      | unreadable => exact absurd fresh (by simp)
  | forgotten unknown queued =>
      cases h with
      | unknown => exact absurd queued (by simp)
      | waiting => exact absurd unknown (by simp)
      | awaiting => exact absurd unknown (by simp)
      | settled => exact absurd unknown (by simp)
      | unreadable => exact absurd unknown (by simp)
  | quarantined found _ queued =>
      obtain ⟨rfl, htasks⟩ := h.popped found queued
      obtain ⟨record, waiting, tasks⟩ := l
      obtain rfl : tasks = [] := htasks
      exact .settled quarantined_unqueued
  | popped found _ queued dispatches =>
      obtain ⟨rfl, htasks⟩ := h.popped found queued
      obtain ⟨record, waiting, tasks⟩ := l
      obtain rfl : tasks = [] := htasks
      exact Orderly.dispatches rfl dispatches
  | resumed _ resumes continues => exact h.resumes resumes continues
  | retried found failed => exact h.retried found failed (readable _ rfl _ found)
  | repaired => exact h.repaired (idle _ rfl)
  | upgraded => exact h.upgraded

theorem undecodable (h : Orderly l) : Orderly (l.update (fun _ => decodeFailurePlaceholder)) := by
  have hunqueued : decodeFailurePlaceholder.status ≠ .queued := by decide
  have hcorrupt : decodeFailurePlaceholder.isDecodeFailedUnwrapRequest = true := by decide
  cases h with
  | unknown => exact .unknown
  | waiting => exact .unreadable hunqueued hcorrupt
  | awaiting task => exact .awaiting task (Or.inr hcorrupt) hunqueued
  | settled => exact .settled hunqueued
  | unreadable => exact .unreadable hunqueued hcorrupt

end Orderly

open GatewayState

def UnwrapsOrderly (c : Crypto) (chain : StableState (World T)) (s : GatewayState T) : Action → Prop
  | .repairStaleOperations now => ∀ id req, s.unwrapRequests.get id = some req →
      req.dispatchStale now = true → ∀ task ∈ s.dispatchTasks, task.1 ≠ id
  | .retryUnwrapDispatch _ id => ∀ req, s.unwrapRequests.get id = some req →
      req.isDecodeFailedUnwrapRequest = false
  | .dispatchUnwrapRequest _ id _ _ _ => ∀ txId index req, UnwrapIntent c chain txId index req →
      deriveLogRequestId c txId index ≠ some id
  | _ => True

structure Accounted (c : Crypto) (chain : StableState (World T)) (s : GatewayState T) : Prop where
  stored : ∀ txId index req id, UnwrapIntent c s.chain txId index req →
    deriveLogRequestId c txId index = some id → s.unwrapRequests.get id ≠ none
  described : ∀ id cur, s.unwrapRequests.get id = some cur →
    (∃ txId index req, UnwrapIntent c s.chain txId index req ∧
      deriveLogRequestId c txId index = some id ∧
        (Renews req cur ∨ Renews decodeFailurePlaceholder cur)) ∨
    ∀ txId index req, UnwrapIntent c chain txId index req → deriveLogRequestId c txId index ≠ some id

section

variable {env : Env T} {chain : StableState (World T)} {s t : GatewayState T} {a : Action}

theorem UnwrapStep.known {R : TxId} {suspended : List (TxId × DispatchTask)} {l l' : UnwrapLane}
    (h : UnwrapStep R suspended a l l') (source : ¬ a.recordsUnwraps) (known : l'.record ≠ none) :
    l.record ≠ none := by
  cases h with
  | other => exact known
  | opened recorded => exact absurd recorded source
  | forgotten => exact known
  | quarantined found => simp [found]
  | popped found => simp [found]
  | resumed _ resumes continues =>
      obtain ⟨before, after, -, rfl⟩ := resumes
      cases continues with
      | finished applied => exact fun h => known (by simp [h])
      | sent call => exact known
  | retried found => simp [found]
  | repaired => exact fun h => known (by simp [h])
  | upgraded => exact fun h => known (by simp [h])

theorem UnwrapIntent.of_receipt {c : Crypto} {chain chain' : StableState (World T)} {txId : TxId}
    {index : Nat} {req : UnwrapDispatchRequest} (h : UnwrapIntent c chain txId index req)
    (hreceipt : ∀ receipt, getReceipt chain txId = some receipt →
      getReceipt chain' txId = some receipt) : UnwrapIntent c chain' txId index req := by
  obtain ⟨receipt, log, hfound, hlogged⟩ := h
  exact ⟨receipt, log, hreceipt receipt hfound, hlogged⟩

theorem Accounted.renewed {c : Crypto} (h : Accounted c chain s)
    (hsame : ∀ txId, getReceipt t.chain txId = getReceipt s.chain txId)
    (hrenewed : ∀ id old, s.unwrapRequests.get id = some old →
      ∃ new, t.unwrapRequests.get id = some new ∧ Renews old new)
    (hnew : ∀ id, t.unwrapRequests.get id ≠ none → s.unwrapRequests.get id ≠ none ∨
      ∀ txId index req, UnwrapIntent c chain txId index req →
        deriveLogRequestId c txId index ≠ some id) : Accounted c chain t := by
  refine ⟨?_, ?_⟩
  · intro txId index req id hintent hid
    have hold := h.stored txId index req id
      (hintent.of_receipt (fun receipt hreceipt => (hsame txId).symm.trans hreceipt)) hid
    obtain ⟨old, hold⟩ := Option.ne_none_iff_exists'.mp hold
    obtain ⟨new, hget, -⟩ := hrenewed id old hold
    rw [hget]
    simp
  · intro id cur hcur
    rcases hnew id (by rw [hcur]; simp) with hknown | hforeign
    · obtain ⟨old, hold⟩ := Option.ne_none_iff_exists'.mp hknown
      obtain ⟨new, hget, hrenews⟩ := hrenewed id old hold
      obtain rfl := Option.some.inj (hget.symm.trans hcur)
      rcases h.described id old hold with ⟨txId, index, req, hintent, hid, hdescribed⟩ | hforeign
      · refine Or.inl ⟨txId, index, req, ?_, hid, ?_⟩
        · exact hintent.of_receipt (fun receipt hreceipt => (hsame txId).trans hreceipt)
        · exact hdescribed.imp (fun h => h.trans hrenews) (fun h => h.trans hrenews)
      · exact Or.inr hforeign
    · exact Or.inr hforeign

theorem Accounted.mined {c : Crypto} {now : Nat} {txIds : List TxId} (h : Accounted c chain s)
    (hchain : ∀ txId receipt, getReceipt s.chain txId = some receipt →
      getReceipt t.chain txId = some receipt)
    (hother : ∀ txId, txId ∉ txIds → getReceipt t.chain txId = getReceipt s.chain txId)
    (hrecords : RecordsUnwraps (fun id req => ∃ txId ∈ txIds, OwedByTx c now t.chain txId id req)
      { s with chain := t.chain } t) : Accounted c chain t := by
  refine ⟨?_, ?_⟩
  · intro txId index req id hintent hid
    by_cases hmem : txId ∈ txIds
    · obtain ⟨receipt, log, hreceipt, hlog, hrequested⟩ := hintent
      refine hrecords.stored id { req with updatedAt := now } ⟨txId, hmem, receipt, index, log,
        hreceipt, hlog, ?_, hid⟩
      rw [unwrapRequestFromLog_now, hrequested, Option.map_some]
    · have hintent : UnwrapIntent c s.chain txId index req :=
        hintent.of_receipt (fun receipt hreceipt => (hother txId hmem).symm.trans hreceipt)
      obtain ⟨old, hold⟩ := Option.ne_none_iff_exists'.mp (h.stored txId index req id hintent hid)
      rw [hrecords.kept id old hold]
      simp
  · intro id cur hcur
    rcases hrecords.origin id cur hcur with hold | ⟨txId, -, receipt, index, log, hreceipt, hlog, howed⟩
    · rcases h.described id cur hold with ⟨txId, index, req, hintent, hid, hdescribed⟩ | hforeign
      · exact Or.inl ⟨txId, index, req, hintent.of_receipt (hchain txId), hid, hdescribed⟩
      · exact Or.inr hforeign
    · obtain ⟨hrequested, hid⟩ := howed
      rw [unwrapRequestFromLog_now] at hrequested
      obtain ⟨req, hreq, rfl⟩ := Option.map_eq_some_iff.mp hrequested
      exact Or.inl ⟨txId, index, req, ⟨receipt, log, hreceipt, hlog, hreq⟩, hid,
        Or.inl ⟨rfl, rfl, rfl, fun _ => rfl⟩⟩

theorem Accounted.miningTick {call : CallEnv} {now : Nat} (h : Accounted env.crypto chain s)
    (hc : Grounded env.crypto s.chain) (hdone : GatewayState.miningTick env call now s = some t) :
    Accounted env.crypto chain t := by
  have hstep := chain_miningTick hdone
  rw [GatewayState.miningTick] at hdone
  obtain ⟨⟨p, hp⟩, -, -⟩ := id hc
  split at hdone
  · exact absurd hdone (by simp)
  · rename_i hproduced
    obtain rfl := Option.some.inj hdone
    have hadds := produced_produceBlock hp hproduced
    apply h.renewed
    · intro txId
      exact hstep.getReceipt_of_same hc (hadds txId List.not_mem_nil)
    · intro id old hold
      exact ⟨old, hold, .refl old⟩
    · intro id hknown
      exact Or.inl hknown
  · rename_i outcome produced hproduced
    obtain rfl := Option.some.inj hdone
    have hadds := produced_produceBlock hp hproduced
    have hrecords : RecordsUnwraps
        (fun id req => ∃ txId ∈ outcome.block.txIds, OwedByTx env.crypto now produced txId id req)
        { s with chain := produced } (recordUnwrapRequestsFromBlock env.crypto now
          outcome.block.txIds { s with chain := produced }) :=
      records_block (s := { s with chain := produced }) outcome.block.txIds
    generalize ht : settleSubmittedWrapMintReceipts now (recordUnwrapRequestsFromBlock env.crypto now
      outcome.block.txIds { s with chain := produced }) = t at hstep ⊢
    have hchain : t.chain = produced := by
      rw [← ht]
      exact hrecords.chain
    have hrecorded : RecordsUnwraps (fun id req => ∃ txId ∈ outcome.block.txIds,
        OwedByTx env.crypto now t.chain txId id req) { s with chain := t.chain } t := by
      rw [hchain, ← ht]
      exact ⟨hrecords.chain, hrecords.kept, hrecords.origin, hrecords.stored⟩
    refine h.mined ?_ ?_ hrecorded
    · intro txId receipt hreceipt
      exact hstep.getReceipt hc hreceipt
    · intro txId hmem
      apply hstep.getReceipt_of_same hc
      rw [hchain]
      exact hadds txId hmem

theorem Accounted.step (h : Accounted env.crypto chain s) (hc : Grounded env.crypto s.chain)
    (hw : s.unwrapDispatchQueue.WellFormed) (hok : UnwrapsOrderly env.crypto chain s a)
    (clock : 0 < a.now) (hdone : perform env a s = some t) : Accounted env.crypto chain t := by
  by_cases hmining : ∃ now call, a = .miningTick now call
  · obtain ⟨now, call, rfl⟩ := hmining
    exact h.miningTick hc hdone
  · have hsubmits : SubmitStep env s.chain t.chain := by
      apply perform_submits hdone
      intro now call ha
      exact hmining ⟨now, call, ha⟩
    apply h.renewed
    · intro txId
      exact hsubmits.chainStep.getReceipt_of_same hc (by rw [hsubmits.receipts])
    · intro id old hold
      exact (perform_payouts clock hdone id).record old hold
    · intro id hknown
      by_cases hsource : a.recordsUnwraps
      · cases a with
        | miningTick now call => exact absurd ⟨now, call, rfl⟩ hmining
        | dispatchUnwrapRequest now target assetId amount recipient =>
            obtain rfl := Option.some.inj hdone
            by_cases hid : id = target
            · subst hid
              exact Or.inr hok
            · refine Or.inl ?_
              obtain ⟨cur, hcur⟩ := Option.ne_none_iff_exists'.mp hknown
              rcases (records_insert target _).origin id cur hcur with hold | howed
              · rw [hold]
                simp
              · exact absurd howed.1 hid
        | _ => exact hsource.elim
      · exact Or.inl (((perform_unwraps hw hdone).lane id).known hsource hknown)

structure UnwrapsKept (env : Env T) (chain : StableState (World T)) (s : GatewayState T) : Prop where
  grounded : Grounded env.crypto s.chain
  wellFormed : s.unwrapDispatchQueue.WellFormed
  orderly : ∀ id, Orderly (s.unwrapLane id)
  accounted : Accounted env.crypto chain s

theorem UnwrapsKept.step (h : UnwrapsKept env chain s) (hok : UnwrapsOrderly env.crypto chain s a)
    (clock : 0 < a.now) (hdone : perform env a s = some t) : UnwrapsKept env chain t where
  grounded := (perform_chain hdone).grounded h.grounded
  wellFormed := (perform_unwraps h.wellFormed hdone).wellFormed
  orderly := by
    intro id
    apply (h.orderly id).step ((perform_unwraps h.wellFormed hdone).lane id)
    · rintro now rfl req hreq hstale
      have hidle := hok id req hreq hstale
      apply List.map_eq_nil_iff.mpr
      apply List.filter_eq_nil_iff.mpr
      intro task htask
      exact fun howned => hidle task htask (of_decide_eq_true howned)
    · rintro now rfl req hreq
      exact hok req hreq
  accounted := h.accounted.step h.grounded h.wellFormed hok clock hdone

theorem unwrapLane_undecodable (s : GatewayState T) (id R : TxId) :
    (s.unwrapUndecodable id).unwrapLane R =
      if R = id then (s.unwrapLane R).update (fun _ => decodeFailurePlaceholder)
      else s.unwrapLane R := by
  split_ifs with hR
  · subst hR
    simp [unwrapLane, unwrapUndecodable, UnwrapLane.update]
  · simp [unwrapLane, unwrapUndecodable, OrdMap.get_modify_of_ne s.unwrapRequests _ hR]

theorem UnwrapsKept.undecodable (h : UnwrapsKept env chain s) (id : TxId) :
    UnwrapsKept env chain (s.unwrapUndecodable id) where
  grounded := h.grounded
  wellFormed := h.wellFormed
  orderly := by
    intro R
    rw [unwrapLane_undecodable]
    split_ifs
    · exact (h.orderly R).undecodable
    · exact h.orderly R
  accounted := by
    have hself : (s.unwrapUndecodable id).unwrapRequests.get id =
        (s.unwrapRequests.get id).map (fun _ => decodeFailurePlaceholder) := OrdMap.get_modify_self ..
    have hother (other : TxId) (hne : other ≠ id) :
        (s.unwrapUndecodable id).unwrapRequests.get other = s.unwrapRequests.get other :=
      OrdMap.get_modify_of_ne _ _ hne
    refine ⟨?_, ?_⟩
    · intro txId index req other hintent hid hnone
      have hold := h.accounted.stored txId index req other hintent hid
      by_cases hne : other = id
      · subst hne
        exact hold (Option.map_eq_none_iff.mp (hself.symm.trans hnone))
      · exact hold ((hother other hne).symm.trans hnone)
    · intro other cur hcur
      by_cases hne : other = id
      · subst hne
        obtain ⟨old, hold, rfl⟩ := Option.map_eq_some_iff.mp (hself.symm.trans hcur)
        refine (h.accounted.described other old hold).imp_left ?_
        rintro ⟨txId, index, req, hintent, hid, -⟩
        exact ⟨txId, index, req, hintent, hid, Or.inr (.refl _)⟩
      · exact h.accounted.described other cur ((hother other hne).symm.trans hcur)

end

section

def sampleQueued : GatewayState Unit :=
  sampleStart.insertUnwrapDispatchRequest sampleQuarantineId (.new [60] 1000 [70] 1)

end

end Kasane.Gateway
