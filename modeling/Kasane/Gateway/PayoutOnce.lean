import Kasane.Gateway.MintOnce
import Kasane.Gateway.Payouts

namespace Kasane.Gateway

open BigEndian Codec Word Chain Exec
open DedupLedger (Deduped)
open UnwrapDispatchRequest (Renews)

variable {T : Type}

def PayoutSteady (id : TxId) (s : GatewayState T) : Action → Prop
  | .resumeDispatch _ i (.fee (.ok fee)) => ∀ ledger recipient req amount,
      s.dispatchTasks[i]? = some (id, .fee ledger recipient req) →
      nativeWithdrawGrossTransferAmount req.amount fee.toNat = .ok amount →
      ∀ call ∈ s.calls, call.origin = .payout id → call.mayMove = true →
        call.ledger = ledger.principal ∧ call.transfer.amount = amount
  | _ => True

structure PaysOnce (env : Env T) (id : TxId) (s : GatewayState T) : Prop where
  deduped : Deduped s.ledgers s.calls
  queried : ∀ ledger recipient req, (id, DispatchTask.fee ledger recipient req) ∈ s.dispatchTasks →
    req.transferCreatedAtTime ≠ 0 ∧ req.isNativeWithdrawDispatchRequest = true ∧
      StoredPrincipal.ofBytes req.recipient = some recipient ∧
        ∃ cur, s.unwrapRequests.get id = some cur ∧ Renews req cur
  described : ∀ call ∈ s.calls, call.origin = .payout id →
    ∃ req, s.unwrapRequests.get id = some req ∧ Pays env id req call
  agree : ∀ x ∈ s.calls, ∀ y ∈ s.calls, x.origin = .payout id → y.origin = .payout id →
    x.mayMove = true → y.mayMove = true →
      x.ledger = y.ledger ∧ x.transfer.amount = y.transfer.amount

section

variable {env : Env T} {id : TxId} {a : Action} {s t : GatewayState T} {new : LedgerCall}

theorem PaysOnce.renewed (h : PaysOnce env id s) (step : PayoutStep env id a s t)
    {call old : LedgerCall} (hold : old ∈ s.calls) (hprior : call.Prior old)
    (horigin : call.origin = .payout id) :
    ∃ req, t.unwrapRequests.get id = some req ∧ Pays env id req call := by
  obtain ⟨req, hreq, hpays⟩ := h.described old hold (hprior.origin.symm.trans horigin)
  obtain ⟨cur, hcur, hrenews⟩ := step.record req hreq
  exact ⟨cur, hcur, (hpays.prior hprior).renew hrenews⟩

theorem PaysOnce.pays (h : PaysOnce env id s) (step : PayoutStep env id a s t)
    (hsends : SendsPayout env id a s t new) :
    ∃ req, t.unwrapRequests.get id = some req ∧ Pays env id req new := by
  cases hsends with
  | token found _ _ pays => exact ⟨_, found, pays⟩
  | @native now i ledger recipient req fee amount _ resumed _ sent =>
      subst sent
      obtain ⟨hcreated, hnative, haddressed, cur, hcur, hrenews⟩ :=
        h.queried ledger recipient req (List.mem_of_getElem? resumed)
      obtain ⟨last, hlast, hrenews'⟩ := step.record cur hcur
      refine ⟨last, hlast, Pays.renew ⟨hcreated, ⟨recipient, haddressed, rfl⟩, ?_⟩
        (hrenews.trans hrenews')⟩
      intro htoken
      exact absurd (hnative.symm.trans htoken) (by simp)

theorem Pays.agree {req : UnwrapDispatchRequest} {x y : LedgerCall} (hx : Pays env id req x)
    (hy : Pays env id req y) (htoken : req.isNativeWithdrawDispatchRequest = false) :
    x.ledger = y.ledger ∧ x.transfer.amount = y.transfer.amount := by
  obtain ⟨hxamount, xledger, hxasset, hxledger⟩ := hx.token htoken
  obtain ⟨hyamount, yledger, hyasset, hyledger⟩ := hy.token htoken
  obtain rfl := Option.some.inj (hxasset.symm.trans hyasset)
  exact ⟨hxledger.trans hyledger.symm, hxamount.trans hyamount.symm⟩

theorem PaysOnce.new_agrees (h : PaysOnce env id s) (step : PayoutStep env id a s t)
    (hok : PayoutSteady id s a) (hsends : SendsPayout env id a s t new) {old : LedgerCall}
    (hold : old ∈ s.calls) (horigin : old.origin = .payout id) (hmay : old.mayMove = true) :
    old.ledger = new.ledger ∧ old.transfer.amount = new.transfer.amount := by
  cases hsends with
  | token found _ token pays =>
      obtain ⟨req, hreq, holdPays⟩ := h.renewed step hold (.refl old) horigin
      obtain rfl := Option.some.inj (found.symm.trans hreq)
      exact holdPays.agree pays token
  | @native now i ledger recipient req fee amount action resumed covered sent =>
      subst action sent
      exact hok ledger recipient req amount resumed covered old hold horigin hmay

theorem PaysOnce.step (h : PaysOnce env id s) (step : PayoutStep env id a s t)
    (hok : PayoutSteady id s a) : PaysOnce env id t := by
  refine ⟨step.deduped h.deduped, ?_, ?_, ?_⟩
  · intro ledger recipient req htask
    rcases step.queries ledger recipient req htask with hold | hasks
    · obtain ⟨hcreated, hnative, haddressed, cur, hcur, hrenews⟩ :=
        h.queried ledger recipient req hold
      obtain ⟨last, hlast, hrenews'⟩ := step.record cur hcur
      exact ⟨hcreated, hnative, haddressed, last, hlast, hrenews.trans hrenews'⟩
    · exact ⟨hasks.created, hasks.native, hasks.addressed, req, hasks.found, .refl req⟩
  · intro call hcall horigin
    rcases step.sent with hknown | ⟨new, hsends, hknown⟩
    · obtain ⟨old, hold, hprior⟩ := hknown call hcall horigin
      exact h.renewed step hold hprior horigin
    · rcases hknown call hcall horigin with ⟨old, hold, hprior⟩ | rfl
      · exact h.renewed step hold hprior horigin
      · exact h.pays step hsends
  · intro x hx y hy hxorigin hyorigin hxmay hymay
    have hpriors {x' y' : LedgerCall} (hx' : x' ∈ s.calls) (hy' : y' ∈ s.calls) (hxp : x.Prior x')
        (hyp : y.Prior y') : x.ledger = y.ledger ∧ x.transfer.amount = y.transfer.amount := by
      rw [hxp.ledger, hxp.transfer, hyp.ledger, hyp.transfer]
      exact h.agree x' hx' y' hy' (hxp.origin.symm.trans hxorigin) (hyp.origin.symm.trans hyorigin)
        (hxp.mayMove hxmay) (hyp.mayMove hymay)
    rcases step.sent with hknown | ⟨new, hsends, hknown⟩
    · obtain ⟨x', hx', hxp⟩ := hknown x hx hxorigin
      obtain ⟨y', hy', hyp⟩ := hknown y hy hyorigin
      exact hpriors hx' hy' hxp hyp
    · have hnew {z old : LedgerCall} (hold : old ∈ s.calls) (hprior : z.Prior old)
          (horigin : z.origin = .payout id) (hmay : z.mayMove = true) :
          z.ledger = new.ledger ∧ z.transfer.amount = new.transfer.amount := by
        rw [hprior.ledger, hprior.transfer]
        exact h.new_agrees step hok hsends hold (hprior.origin.symm.trans horigin)
          (hprior.mayMove hmay)
      rcases hknown x hx hxorigin with ⟨x', hx', hxp⟩ | rfl
      · rcases hknown y hy hyorigin with ⟨y', hy', hyp⟩ | rfl
        · exact hpriors hx' hy' hxp hyp
        · exact hnew hx' hxp hxorigin hxmay
      · rcases hknown y hy hyorigin with ⟨y', hy', hyp⟩ | rfl
        · obtain ⟨hledger, hamount⟩ := hnew hy' hyp hyorigin hymay
          exact ⟨hledger.symm, hamount.symm⟩
        · exact ⟨rfl, rfl⟩

theorem PaysOnce.same_transfer (h : PaysOnce env id s) {x y : LedgerCall} (hx : x ∈ s.calls)
    (hy : y ∈ s.calls) (hxorigin : x.origin = .payout id) (hyorigin : y.origin = .payout id)
    (hxmay : x.mayMove = true) (hymay : y.mayMove = true) :
    x.ledger = y.ledger ∧ x.transfer = y.transfer := by
  obtain ⟨hledger, hamount⟩ := h.agree x hx y hy hxorigin hyorigin hxmay hymay
  obtain ⟨req, hreq, hxpays⟩ := h.described x hx hxorigin
  obtain ⟨req', hreq', hypays⟩ := h.described y hy hyorigin
  obtain rfl := Option.some.inj (hreq.symm.trans hreq')
  obtain ⟨xrecipient, hxaddressed, hxtransfer⟩ := hxpays.transfer
  obtain ⟨yrecipient, hyaddressed, hytransfer⟩ := hypays.transfer
  obtain rfl := Option.some.inj (hxaddressed.symm.trans hyaddressed)
  refine ⟨hledger, ?_⟩
  rw [hxtransfer, hytransfer, hamount]

end

open GatewayState

theorem payout_executed_once {env : Env T} {world : World T} {config : WrapConfig}
    {ledgers : Principal → DedupLedger.Ledger Principal} {id : TxId} {s : GatewayState T}
    (run : Run env (PayoutSteady id) (init world config ledgers) s) {i j : Nat} {x y : LedgerCall}
    (hi : s.calls[i]? = some x) (hj : s.calls[j]? = some y) (hx : x.origin = .payout id)
    (hy : y.origin = .payout id) (hxmoved : x.moved = true) (hymoved : y.moved = true) : i = j := by
  have hinv : PaysOnce env id s := by
    refine run_invariant (PaysOnce env id) ?_ ?_ run
    · refine ⟨DedupLedger.deduped_nil ledgers, ?_, ?_, ?_⟩
      · intro ledger recipient req htask
        exact absurd htask List.not_mem_nil
      · intro call hcall
        exact absurd hcall List.not_mem_nil
      · intro call hcall
        exact absurd hcall List.not_mem_nil
    · intro s t a hinv hok hnow hdone
      exact hinv.step (perform_payouts hnow hdone id) hok
  obtain ⟨hledger, htransfer⟩ := hinv.same_transfer (List.mem_of_getElem? hi)
    (List.mem_of_getElem? hj) hx hy (DedupLedger.Call.mayMove_of_moved hxmoved)
    (DedupLedger.Call.mayMove_of_moved hymoved)
  exact hinv.deduped.distinct i j x y hi hj hxmoved hymoved hledger htransfer

section

def sampleUnwrapId : TxId := zeroArr 32

def dispatchToken : List Action :=
  [.dispatchUnwrapRequest 1 sampleUnwrapId [60] 1000 [70], .unwrapDispatchTick 1,
    .ledgerReceives 1 (samplePrincipalOf 60).principal 5000, .ledgerExecutes 1 0 none,
    .resumeDispatch 1 0 (.ledger (.lost "reject")), .retryUnwrapDispatch 1 sampleUnwrapId,
    .unwrapDispatchTick 1, .ledgerExecutes 1 1 none]

def dispatchNativeTwice : List Action :=
  [.dispatchUnwrapRequest 1 sampleUnwrapId nativeWithdrawAssetMarker 1000 [70],
    .unwrapDispatchTick 1, .resumeDispatch 1 0 (.fee (.ok 10)),
    .ledgerReceives 1 (samplePrincipalOf 51).principal 5000, .ledgerExecutes 1 0 none,
    .resumeDispatch 1 0 (.ledger (.lost "reject")), .retryUnwrapDispatch 1 sampleUnwrapId,
    .unwrapDispatchTick 1, .resumeDispatch 1 0 (.fee (.ok 20)), .ledgerExecutes 1 1 none]

theorem payout_executed_once_run :
    ∃ s x y, Run sampleGateway (PayoutSteady sampleUnwrapId) sampleStart s ∧
      s.calls[0]? = some x ∧ s.calls[1]? = some y ∧ x.origin = .payout sampleUnwrapId ∧
        y.origin = .payout sampleUnwrapId ∧ x.moved = true ∧ (y.moved = true → 0 = 1) := by
  have hok : ∀ a ∈ dispatchToken, ∀ s : GatewayState Unit, PayoutSteady sampleUnwrapId s a := by
    intro a ha s
    simp only [dispatchToken, List.mem_cons, List.not_mem_nil, or_false] at ha
    rcases ha with rfl | rfl | rfl | rfl | rfl | rfl | rfl | rfl
    all_goals trivial
  obtain ⟨s, hrun, hcalls⟩ := run_of_any sampleGateway dispatchToken sampleStart
    (fun s => (s.calls[0]?).any (fun x : LedgerCall => (s.calls[1]?).any (fun y : LedgerCall => decide
      (x.origin = .payout sampleUnwrapId ∧ y.origin = .payout sampleUnwrapId ∧ x.moved = true))))
    (by decide) hok (by decide +kernel)
  obtain ⟨x, hx, hinner⟩ := (Option.any_eq_true _ _).mp hcalls
  obtain ⟨y, hy, hxy⟩ := (Option.any_eq_true _ _).mp hinner
  obtain ⟨hxorigin, hyorigin, hmoved⟩ := of_decide_eq_true hxy
  refine ⟨s, x, y, hrun, hx, hy, hxorigin, hyorigin, hmoved, ?_⟩
  intro hymoved
  exact payout_executed_once hrun hx hy hxorigin hyorigin hmoved hymoved

theorem payout_executed_twice :
    ∃ s x y, Run sampleGateway (fun _ _ => True) sampleStart s ∧ s.calls[0]? = some x ∧
      s.calls[1]? = some y ∧ x.origin = .payout sampleUnwrapId ∧
        y.origin = .payout sampleUnwrapId ∧ x.moved = true ∧ y.moved = true := by
  obtain ⟨s, hrun, hcalls⟩ := run_of_any sampleGateway dispatchNativeTwice sampleStart
    (fun s => (s.calls[0]?).any (fun x : LedgerCall => (s.calls[1]?).any (fun y : LedgerCall => decide
      (x.origin = .payout sampleUnwrapId ∧ y.origin = .payout sampleUnwrapId ∧ x.moved = true ∧
        y.moved = true))))
    (by decide) (fun _ _ _ => trivial) (by decide +kernel)
  obtain ⟨x, hx, hinner⟩ := (Option.any_eq_true _ _).mp hcalls
  obtain ⟨y, hy, hxy⟩ := (Option.any_eq_true _ _).mp hinner
  exact ⟨s, x, y, hrun, hx, hy, of_decide_eq_true hxy⟩

end

end Kasane.Gateway
