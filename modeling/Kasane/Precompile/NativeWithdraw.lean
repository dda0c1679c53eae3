import Kasane.Precompile.Calls

namespace Kasane.Precompile

open BigEndian Codec Receipt

def withdrawGas (elapsed : Nat) (inputs : CallInputs) (recipient : Bytes) : Nat :=
  estimateWrapPrecompileGas inputs.input.length (33 + recipient.length) nativeWithdrawFields +
    extraGasForPrecompile inputs.bytecodeAddress elapsed

structure WithdrawAccepted (env : Env) (elapsed : Nat) (inputs : CallInputs) (recipient : Bytes) :
    Prop where
  external : env.access.wrapSideEffects = true
  dynamic : inputs.isStatic = false
  parsed : parseNativeWithdrawInput inputs.input = .ok recipient
  aligned : inputs.callValue.toNat % weiPerE8s = 0
  nonzero : inputs.callValue ≠ 0
  paid : withdrawGas elapsed inputs recipient ≤ inputs.gasLimit

def WithdrawRefused (env : Env) (elapsed : Nat) (inputs : CallInputs) : Prop :=
  ∀ recipient, ¬ WithdrawAccepted env elapsed inputs recipient

def withdrawIntent (value : U256) (recipient : Bytes) : NativeWithdrawIntent :=
  ⟨amountBytes (BitVec.ofNat 256 (value.toNat / weiPerE8s)), recipient⟩

def intentAmount (intent : NativeWithdrawIntent) : Nat :=
  (u256OfBytes intent.amountE8s.toList).toNat

theorem toNat_div_weiPerE8s (value : U256) :
    (BitVec.ofNat 256 (value.toNat / weiPerE8s)).toNat = value.toNat / weiPerE8s := by
  rw [BitVec.toNat_ofNat]
  exact Nat.mod_eq_of_lt (lt_of_le_of_lt (Nat.div_le_self _ _) value.isLt)

theorem intentAmount_withdrawIntent {value : U256} (recipient : Bytes)
    (h : value.toNat % weiPerE8s = 0) :
    intentAmount (withdrawIntent value recipient) * weiPerE8s = value.toNat := by
  rw [intentAmount, withdrawIntent, u256OfBytes_amountBytes, toNat_div_weiPerE8s]
  exact Nat.div_mul_cancel (Nat.dvd_of_mod_eq_zero h)

theorem withdraw_amount_zero_iff {value : U256} (h : value.toNat % weiPerE8s = 0) :
    BitVec.ofNat 256 (value.toNat / weiPerE8s) = 0 ↔ value = 0 := by
  have hdvd : weiPerE8s * (value.toNat / weiPerE8s) = value.toNat :=
    Nat.mul_div_cancel' (Nat.dvd_of_mod_eq_zero h)
  constructor
  · intro hz
    have hdiv : value.toNat / weiPerE8s = 0 := by
      rw [← toNat_div_weiPerE8s, hz]
      rfl
    rw [hdiv, Nat.mul_zero] at hdvd
    exact BitVec.eq_of_toNat_eq (hdvd.symm.trans rfl)
  · rintro rfl
    rfl

theorem length_encodeNativeWithdrawLogData (intent : NativeWithdrawIntent) :
    (encodeNativeWithdrawLogData intent).length = 33 + intent.recipient.length := by
  rw [encodeNativeWithdrawLogData, List.length_append, List.Vector.toList_length, List.length_cons]
  omega

theorem providerRun_nativeWithdraw {env : Env} {elapsed : Nat} {ctx : Context}
    {inputs : CallInputs} (h : inputs.bytecodeAddress = nativeWithdrawPrecompileAddress) :
    providerRun env elapsed ctx inputs =
      some (chargeExtraGas
        (runNativeWithdrawPrecompile env ctx inputs env.access.wrapSideEffects).1 inputs.gasLimit
        (extraGasForPrecompile inputs.bytecodeAddress elapsed),
        (runNativeWithdrawPrecompile env ctx inputs env.access.wrapSideEffects).2) := by
  have hne : nativeWithdrawPrecompileAddress ≠ wrapPrecompileAddress := by decide
  simp only [providerRun, h, if_neg hne, if_true, Option.map_some]

theorem runNativeWithdraw_refused {env : Env} {elapsed : Nat} {ctx : Context}
    {inputs : CallInputs} (h : WithdrawRefused env elapsed inputs) :
    (chargeExtraGas (runNativeWithdrawPrecompile env ctx inputs env.access.wrapSideEffects).1
      inputs.gasLimit (extraGasForPrecompile inputs.bytecodeAddress elapsed)).result ≠ .return_ := by
  have hfail (msg : String) : (chargeExtraGas (precompileFail ctx inputs.gasLimit msg).1
      inputs.gasLimit (extraGasForPrecompile inputs.bytecodeAddress elapsed)).result ≠ .return_ :=
    chargeExtraGas_not_return _ _ (by simp [precompileFail])
  rw [runNativeWithdrawPrecompile]
  split_ifs with hext hstatic
  · exact hfail _
  · exact hfail _
  · cases hparse : parseNativeWithdrawInput inputs.input with
    | error code => exact hfail _
    | ok recipient =>
        by_cases halign : inputs.callValue.toNat % weiPerE8s = 0
        · simp only [nativeValueToE8s, halign, ne_eq, not_true, if_false]
          split_ifs with hzero
          · exact hfail _
          · intro hpaid
            dsimp only at hpaid
            rw [chargeExtraGas_returns_iff, length_encodeNativeWithdrawLogData] at hpaid
            refine h recipient ⟨?_, ?_, hparse, halign, ?_, ?_⟩
            · simpa using hext
            · simpa using hstatic
            · exact fun hv => hzero ((withdraw_amount_zero_iff halign).mpr hv)
            · exact hpaid
        · simp only [nativeValueToE8s, halign, ne_eq, not_false_eq_true, if_true]
          exact hfail _

theorem runNativeWithdraw_accepted {env : Env} {elapsed : Nat} (ctx : Context)
    {inputs : CallInputs} {recipient : Bytes} (h : WithdrawAccepted env elapsed inputs recipient) :
    (chargeExtraGas (runNativeWithdrawPrecompile env ctx inputs env.access.wrapSideEffects).1
      inputs.gasLimit (extraGasForPrecompile inputs.bytecodeAddress elapsed)).result = .return_ ∧
    (runNativeWithdrawPrecompile env ctx inputs env.access.wrapSideEffects).2.journal =
      ctx.journal.log (nativeWithdrawLog env.keccak256
        (withdrawIntent inputs.callValue recipient)) := by
  have hzero : ¬ BitVec.ofNat 256 (inputs.callValue.toNat / weiPerE8s) = 0 :=
    fun hz => h.nonzero ((withdraw_amount_zero_iff h.aligned).mp hz)
  simp only [runNativeWithdrawPrecompile, h.external, Bool.true_eq_false, if_false, h.dynamic,
    Bool.false_eq_true, h.parsed, nativeValueToE8s, h.aligned, ne_eq, not_true, hzero]
  refine ⟨(chargeExtraGas_returns_iff _ _ _).mpr ?_, rfl⟩
  rw [length_encodeNativeWithdrawLogData]
  exact h.paid

theorem callPrecompile_withdraw_refused {env : Env} {elapsed : Nat} {j funded : Journal}
    {frame : Frame} {req : CallRequest} (hto : req.codeAddress = nativeWithdrawPrecompileAddress)
    (hreach : req.Reaches frame j funded)
    (h : WithdrawRefused env elapsed (req.inputs frame)) :
    callPrecompile env elapsed j frame req = none := by
  have hcode : (req.inputs frame).bytecodeAddress = nativeWithdrawPrecompileAddress := hto
  simp only [callPrecompile, hreach.permitted, Bool.false_eq_true, if_false, hreach.funded,
    Option.bind_eq_bind, Option.bind_some, providerRun_nativeWithdraw hcode,
    if_neg (runNativeWithdraw_refused h)]

theorem callPrecompile_withdraw_accepted {env : Env} {elapsed : Nat} {j funded : Journal}
    {frame : Frame} {req : CallRequest} {recipient : Bytes}
    (hto : req.codeAddress = nativeWithdrawPrecompileAddress)
    (hreach : req.Reaches frame j funded)
    (h : WithdrawAccepted env elapsed (req.inputs frame) recipient) :
    callPrecompile env elapsed j frame req = some (funded.log (nativeWithdrawLog env.keccak256
      (withdrawIntent (req.inputs frame).callValue recipient))) := by
  have hcode : (req.inputs frame).bytecodeAddress = nativeWithdrawPrecompileAddress := hto
  obtain ⟨hret, hjournal⟩ := runNativeWithdraw_accepted ⟨funded, none⟩ h
  simp only [callPrecompile, hreach.permitted, Bool.false_eq_true, if_false, hreach.funded,
    Option.bind_eq_bind, Option.bind_some, providerRun_nativeWithdraw hcode, if_pos hret, hjournal]

def withdrawIntents (env : Env) (logs : List LogEntry) : List NativeWithdrawIntent :=
  logs.filterMap (nativeWithdrawIntentFromLog env.keccak256)

def WithdrawBacked (env : Env) (elapsed : Nat) (j : Journal) (frame : Frame) (req : CallRequest) :
    Prop :=
  ∀ j', callPrecompile env elapsed j frame req = some j' →
    ∀ intent ∈ withdrawIntents env (j'.logs.drop j.logs.length),
      ∃ t, j'.transfers.drop j.transfers.length = [t] ∧ t.source = frame.self ∧
        t.target = nativeWithdrawPrecompileAddress ∧
        t.value.toNat = intentAmount intent * weiPerE8s

def WithdrawSafe (env : Env) (elapsed : Nat) (frame : Frame) (req : CallRequest) : Prop :=
  (req.scheme ≠ .delegateCall ∧
    (req.inputs frame).targetAddress = nativeWithdrawPrecompileAddress) ∨
  WithdrawRefused env elapsed (req.inputs frame)

theorem moveValue_of_not_delegate {req : CallRequest} {frame : Frame} {j funded : Journal}
    (hscheme : req.scheme ≠ .delegateCall) (h : (req.inputs frame).moveValue j = some funded) :
    funded.transfers = j.transfers ++ [⟨frame.self, (req.inputs frame).targetAddress,
      (req.inputs frame).callValue⟩] := by
  obtain ⟨scheme, codeAddress, value, input, gasLimit⟩ := req
  cases scheme with
  | call => exact (transfer_eq_some h).2.2
  | callCode => exact (transfer_eq_some h).2.2
  | staticCall => exact (transfer_eq_some h).2.2
  | delegateCall => exact absurd rfl hscheme

theorem moveValue_of_delegate {req : CallRequest} {frame : Frame} {j funded : Journal}
    (hscheme : req.scheme = .delegateCall) (h : (req.inputs frame).moveValue j = some funded) :
    funded = j := by
  obtain ⟨scheme, codeAddress, value, input, gasLimit⟩ := req
  obtain rfl : scheme = .delegateCall := hscheme
  exact (Option.some.inj h).symm

theorem withdrawIntents_log {env : Env} {value : U256} {recipient : Bytes}
    (hpos : 1 ≤ recipient.length) (hle : recipient.length ≤ maxPrincipalLen) :
    withdrawIntents env [nativeWithdrawLog env.keccak256 (withdrawIntent value recipient)] =
      [withdrawIntent value recipient] := by
  have hlog := nativeWithdrawIntentFromLog_log env.keccak256 (withdrawIntent value recipient)
    hpos hle
  simp [withdrawIntents, hlog]

theorem withdraw_backed_iff {env : Env} {elapsed : Nat} {j funded : Journal} {frame : Frame}
    {req : CallRequest} (hto : req.codeAddress = nativeWithdrawPrecompileAddress)
    (hreach : req.Reaches frame j funded) :
    WithdrawBacked env elapsed j frame req ↔ WithdrawSafe env elapsed frame req := by
  by_cases hacc : ∃ recipient, WithdrawAccepted env elapsed (req.inputs frame) recipient
  · obtain ⟨recipient, hacc⟩ := hacc
    obtain ⟨hpos, hle⟩ := parseNativeWithdrawInput_ok hacc.parsed
    have hcall := callPrecompile_withdraw_accepted hto hreach hacc
    obtain ⟨hlogs, -, -⟩ := moveValue_keeps hreach.funded
    set intent := withdrawIntent (req.inputs frame).callValue recipient with hintent
    have hnew : withdrawIntents env ((funded.log (nativeWithdrawLog env.keccak256 intent)).logs.drop
        j.logs.length) = [intent] := by
      rw [Journal.log, hlogs, List.drop_left]
      exact withdrawIntents_log hpos hle
    constructor
    · intro hback
      obtain ⟨t, ht, -, htarget, -⟩ := hback _ hcall intent (by rw [hnew]; simp)
      left
      by_cases hdel : req.scheme = .delegateCall
      · have hsame := moveValue_of_delegate hdel hreach.funded
        rw [Journal.log, hsame, List.drop_length] at ht
        exact absurd ht (by simp)
      · refine ⟨hdel, ?_⟩
        have hmoved := moveValue_of_not_delegate hdel hreach.funded
        rw [Journal.log, hmoved, List.drop_left] at ht
        obtain rfl := (List.cons.inj ht).1
        exact htarget
    · rintro (⟨hdel, htarget⟩ | hrefused)
      · intro j' hj' intent' hmem
        obtain rfl := Option.some.inj (hcall.symm.trans hj')
        rw [hnew, List.mem_singleton] at hmem
        have hmoved := moveValue_of_not_delegate hdel hreach.funded
        refine ⟨⟨frame.self, (req.inputs frame).targetAddress, (req.inputs frame).callValue⟩,
          ?_, rfl, htarget, ?_⟩
        · rw [Journal.log, hmoved, List.drop_left]
        · rw [hmem, hintent, intentAmount_withdrawIntent recipient hacc.aligned]
      · exact absurd hacc (hrefused recipient)
  · have hrefused : WithdrawRefused env elapsed (req.inputs frame) :=
      fun recipient h => hacc ⟨recipient, h⟩
    refine iff_of_true ?_ (Or.inr hrefused)
    intro j' hj'
    rw [callPrecompile_withdraw_refused hto hreach hrefused] at hj'
    exact absurd hj' (by simp)

def intentTotal (env : Env) (logs : List LogEntry) : Nat :=
  ((withdrawIntents env logs).map intentAmount).sum

def surrendered (transfers : List Transfer) : Nat :=
  ((transfers.filter (fun t => decide (t.target = nativeWithdrawPrecompileAddress))).map
    (fun t => t.value.toNat)).sum

def Covered (env : Env) (j : Journal) : Prop :=
  intentTotal env j.logs * weiPerE8s ≤ surrendered j.transfers

theorem intentTotal_append (env : Env) (xs ys : List LogEntry) :
    intentTotal env (xs ++ ys) = intentTotal env xs + intentTotal env ys := by
  simp [intentTotal, withdrawIntents]

theorem surrendered_append (xs ys : List Transfer) :
    surrendered (xs ++ ys) = surrendered xs + surrendered ys := by
  simp [surrendered]

theorem surrendered_le_append (xs ys : List Transfer) :
    surrendered xs ≤ surrendered (xs ++ ys) := by
  rw [surrendered_append]
  exact Nat.le_add_right _ _

theorem covered_of_grow {env : Env} {j j' : Journal} (h : Covered env j)
    (hlogs : intentTotal env j'.logs = intentTotal env j.logs)
    (htransfers : surrendered j.transfers ≤ surrendered j'.transfers) : Covered env j' := by
  rw [Covered, hlogs]
  exact le_trans h htransfers

theorem surrendered_moveValue {inputs : CallInputs} {j funded : Journal}
    (h : inputs.moveValue j = some funded) :
    surrendered j.transfers ≤ surrendered funded.transfers := by
  obtain ⟨-, -, hsame | ⟨t, hmore⟩⟩ := moveValue_keeps h
  · rw [hsame]
  · rw [hmore]
    exact surrendered_le_append _ _

theorem covered_moveValue {env : Env} {inputs : CallInputs} {j funded : Journal}
    (hc : Covered env j) (h : inputs.moveValue j = some funded) : Covered env funded := by
  refine covered_of_grow hc ?_ (surrendered_moveValue h)
  rw [(moveValue_keeps h).1]

theorem intentTotal_log_of_none {env : Env} {j : Journal} {entry : LogEntry}
    (h : nativeWithdrawIntentFromLog env.keccak256 entry = none) :
    intentTotal env (j.log entry).logs = intentTotal env j.logs := by
  rw [Journal.log, intentTotal_append]
  simp [intentTotal, withdrawIntents, h]

theorem nativeWithdrawIntentFromLog_of_address {env : Env} {entry : LogEntry}
    (h : entry.address ≠ nativeWithdrawPrecompileAddress) :
    nativeWithdrawIntentFromLog env.keccak256 entry = none := by
  rw [nativeWithdrawIntentFromLog, if_pos h]

theorem nativeWithdrawIntentFromLog_tokenLog (env : Env) (token source target : Address)
    (signature : Bytes) (value : U256) :
    nativeWithdrawIntentFromLog env.keccak256 (tokenLog env token signature source target value) =
      none := by
  rw [nativeWithdrawIntentFromLog]
  split_ifs with haddr htopics
  · rfl
  · rfl
  · exact absurd (by simp [tokenLog]) htopics

theorem intentTotal_burn {env : Env} {j j' : Journal} {owner : Address} {intent : UnwrapIntent}
    (h : burnWrappedAsset env j owner intent = .ok j') :
    intentTotal env j'.logs = intentTotal env j.logs ∧ j'.transfers = j.transfers := by
  simp only [burnWrappedAsset] at h
  split_ifs at h with htoken hbalance
  obtain ⟨⟨spent, approval⟩, hspend, hrest⟩ := bind_eq_ok.mp h
  have hkeep : spent.logs = j.logs ∧ spent.transfers = j.transfers := by
    simp only [spendAllowance] at hspend
    split_ifs at hspend with hmax hless
    · obtain ⟨rfl, -⟩ := Prod.mk.inj (Except.ok.inj hspend)
      exact ⟨rfl, rfl⟩
    · obtain ⟨rfl, -⟩ := Prod.mk.inj (Except.ok.inj hspend)
      exact ⟨rfl, rfl⟩
  dsimp only at hrest
  split_ifs at hrest with hsupply
  obtain rfl := Except.ok.inj hrest
  cases approval with
  | none =>
      dsimp only [settleBurn]
      rw [emitTransferLog, intentTotal_log_of_none (nativeWithdrawIntentFromLog_tokenLog ..)]
      exact ⟨congrArg (intentTotal env) hkeep.1, hkeep.2⟩
  | some next =>
      dsimp only [settleBurn]
      rw [emitTransferLog, intentTotal_log_of_none (nativeWithdrawIntentFromLog_tokenLog ..),
        emitApprovalLog, intentTotal_log_of_none (nativeWithdrawIntentFromLog_tokenLog ..)]
      exact ⟨congrArg (intentTotal env) hkeep.1, hkeep.2⟩

theorem runWrapPrecompile_intents (env : Env) (ctx : Context) (inputs : CallInputs)
    (allow : Bool) :
    intentTotal env (runWrapPrecompile env ctx inputs allow).2.journal.logs =
        intentTotal env ctx.journal.logs ∧
      (runWrapPrecompile env ctx inputs allow).2.journal.transfers = ctx.journal.transfers := by
  rw [runWrapPrecompile]
  split_ifs with hext hstatic
  · exact ⟨rfl, rfl⟩
  · exact ⟨rfl, rfl⟩
  · cases hparse : parseInput inputs.input with
    | error code => exact ⟨rfl, rfl⟩
    | ok parsed =>
        dsimp only
        cases hburn : burnWrappedAsset env ctx.journal (unwrapOwner inputs) parsed with
        | error code => exact ⟨rfl, rfl⟩
        | ok journal =>
            obtain ⟨hlogs, htransfers⟩ := intentTotal_burn hburn
            have hne : wrapPrecompileAddress ≠ nativeWithdrawPrecompileAddress := by decide
            have hother : nativeWithdrawIntentFromLog env.keccak256
                (unwrapLog env.keccak256 parsed) = none :=
              nativeWithdrawIntentFromLog_of_address hne
            dsimp only [Context.log]
            rw [intentTotal_log_of_none hother]
            exact ⟨hlogs, htransfers⟩

theorem covered_wrap {env : Env} {elapsed : Nat} {j j' : Journal} {frame : Frame}
    {req : CallRequest} (hto : req.codeAddress = wrapPrecompileAddress)
    (h : callPrecompile env elapsed j frame req = some j') (hc : Covered env j) :
    Covered env j' := by
  obtain ⟨funded, out, ctx, hreach, hrun, -, rfl⟩ := callPrecompile_eq_some h
  have hcode : (req.inputs frame).bytecodeAddress = wrapPrecompileAddress := hto
  simp only [providerRun, hcode, if_true, Option.map_some] at hrun
  obtain ⟨-, rfl⟩ := Prod.mk.inj (Option.some.inj hrun)
  obtain ⟨hlogs, htransfers⟩ := runWrapPrecompile_intents env ⟨funded, none⟩ (req.inputs frame)
    env.access.wrapSideEffects
  refine covered_of_grow (covered_moveValue hc hreach.funded) hlogs ?_
  rw [htransfers]

theorem covered_withdraw {env : Env} {elapsed : Nat} {j j' : Journal} {frame : Frame}
    {req : CallRequest} (hto : req.codeAddress = nativeWithdrawPrecompileAddress)
    (hsafe : WithdrawSafe env elapsed frame req)
    (h : callPrecompile env elapsed j frame req = some j') (hc : Covered env j) :
    Covered env j' := by
  obtain ⟨funded, out, ctx, hreach, -, -, -⟩ := callPrecompile_eq_some h
  by_cases hacc : ∃ recipient, WithdrawAccepted env elapsed (req.inputs frame) recipient
  · obtain ⟨recipient, hacc⟩ := hacc
    obtain ⟨hpos, hle⟩ := parseNativeWithdrawInput_ok hacc.parsed
    rw [callPrecompile_withdraw_accepted hto hreach hacc] at h
    obtain rfl := Option.some.inj h
    rcases hsafe with ⟨hdel, htarget⟩ | hrefused
    · have hlogs := (moveValue_keeps hreach.funded).1
      have hmoved := moveValue_of_not_delegate hdel hreach.funded
      have hnew : intentTotal env [nativeWithdrawLog env.keccak256
          (withdrawIntent (req.inputs frame).callValue recipient)] * weiPerE8s =
          (req.inputs frame).callValue.toNat := by
        rw [intentTotal, withdrawIntents_log hpos hle]
        simpa using intentAmount_withdrawIntent recipient hacc.aligned
      have hpaid : surrendered [⟨frame.self, (req.inputs frame).targetAddress,
          (req.inputs frame).callValue⟩] = (req.inputs frame).callValue.toNat := by
        simp [surrendered, htarget]
      rw [Covered] at hc ⊢
      rw [Journal.log, hlogs, hmoved, intentTotal_append, surrendered_append, Nat.add_mul, hnew,
        hpaid]
      exact Nat.add_le_add_right hc _
    · exact absurd hacc (hrefused recipient)
  · have hrefused : WithdrawRefused env elapsed (req.inputs frame) :=
      fun recipient hr => hacc ⟨recipient, hr⟩
    rw [callPrecompile_withdraw_refused hto hreach hrefused] at h
    exact absurd h (by simp)

namespace Machine

def WithdrawConforms (env : Env) (m : Machine) : Event → Prop
  | .precompile req elapsed =>
      req.codeAddress = nativeWithdrawPrecompileAddress → m.issues req →
        WithdrawSafe env elapsed m.frame req
  | _ => True

structure Backed (env : Env) (m : Machine) : Prop where
  journal : Covered env m.journal
  checkpoints : ∀ p ∈ m.stack, p.1.self ∉ reservedAddresses ∧ Covered env p.2

theorem backed_push {env : Env} {m : Machine} {frame : Frame} {funded : Journal}
    (h : m.Backed env) (hself : frame.self ∉ reservedAddresses) (hfunded : Covered env funded) :
    (m.push frame funded).Backed env := by
  refine ⟨hfunded, ?_⟩
  intro p hp
  rcases List.mem_cons.mp hp with rfl | hp
  · exact ⟨hself, h.journal⟩
  · exact h.checkpoints p hp

theorem frame_not_reserved {env : Env} {m : Machine} (h : m.Backed env) (hstack : m.stack ≠ []) :
    m.frame.self ∉ reservedAddresses := by
  obtain ⟨sender, journal, stack⟩ := m
  cases stack with
  | nil => exact absurd rfl hstack
  | cons p rest => exact (h.checkpoints p (by simp)).1

theorem entered_not_reserved {env : Env} {m : Machine} {req : CallRequest} (h : m.Backed env)
    (hissues : m.issues req) (hcode : req.codeAddress ∉ reservedAddresses) :
    (req.inputs m.frame).frame.self ∉ reservedAddresses := by
  obtain ⟨scheme, codeAddress, value, input, gasLimit⟩ := req
  cases scheme with
  | call => exact hcode
  | staticCall => exact hcode
  | callCode => exact frame_not_reserved h (fun hnil => by simpa using hissues hnil)
  | delegateCall => exact frame_not_reserved h (fun hnil => by simpa using hissues hnil)

theorem backed_step {env : Env} {m : Machine} (h : m.Backed env) (event : Event)
    (hconf : m.WithdrawConforms env event) : (m.step env event).Backed env := by
  cases event with
  | transaction sender =>
      simp only [step]
      split_ifs with hnil
      · exact ⟨h.journal, h.checkpoints⟩
      · exact h
  | enter req =>
      simp only [step]
      split_ifs with hbad
      · exact h
      · obtain ⟨hissues, hcode, -⟩ := by simpa only [not_or, not_not] using hbad
        split
        · exact h
        · rename_i funded hfunded
          exact backed_push h (entered_not_reserved h hissues hcode)
            (covered_moveValue h.journal hfunded)
  | create address value =>
      simp only [step]
      split_ifs with hbad
      · exact h
      · split
        · exact h
        · rename_i funded hfunded
          obtain ⟨hlogs, -, htransfers⟩ := transfer_eq_some hfunded
          refine backed_push h (not_or.mp hbad).1 (covered_of_grow h.journal (by rw [hlogs]) ?_)
          rw [htransfers]
          exact surrendered_le_append _ _
  | leave ok =>
      simp only [step]
      split
      · exact h
      · rename_i frame checkpoint rest hstack
        have hmem : (frame, checkpoint) ∈ m.stack := by simp [hstack]
        refine ⟨?_, fun p hp => h.checkpoints p (by simp [hstack, hp])⟩
        cases ok with
        | true => exact h.journal
        | false => exact (h.checkpoints _ hmem).2
  | precompile req elapsed =>
      simp only [step]
      split_ifs with hbad
      · exact h
      · obtain ⟨hissues, hmem⟩ := by simpa only [not_or, not_not] using hbad
        split
        · exact h
        · rename_i journal hcall
          refine ⟨?_, h.checkpoints⟩
          have hcase : req.codeAddress = wrapPrecompileAddress ∨
              req.codeAddress = nativeWithdrawPrecompileAddress := by
            simpa [intentPrecompiles] using hmem
          rcases hcase with hto | hto
          · exact covered_wrap hto hcall h.journal
          · exact covered_withdraw hto (hconf hto hissues) hcall h.journal
  | emitLog topics data =>
      simp only [step]
      split_ifs with hbad
      · exact h
      · have hself := frame_not_reserved h (not_or.mp hbad).1
        have hne : m.frame.self ≠ nativeWithdrawPrecompileAddress := by
          intro heq
          exact hself (by simp [heq, reservedAddresses])
        refine ⟨?_, h.checkpoints⟩
        exact covered_of_grow h.journal
          (intentTotal_log_of_none (nativeWithdrawIntentFromLog_of_address hne)) le_rfl
  | store slot value =>
      simp only [step]
      split_ifs with hbad
      · exact h
      · exact ⟨h.journal, h.checkpoints⟩

theorem backed_run {env : Env} {m : Machine} (h : m.Backed env) (events : List Event)
    (hconf : m.Along env (WithdrawConforms env) events) : (m.run env events).Backed env := by
  induction events generalizing m with
  | nil => exact h
  | cons event rest ih => exact ih (backed_step h event hconf.1) hconf.2

end Machine

theorem native_withdraw_backed (env : Env) :
    (∀ elapsed j funded frame req, req.codeAddress = nativeWithdrawPrecompileAddress →
      req.Reaches frame j funded →
      (WithdrawBacked env elapsed j frame req ↔ WithdrawSafe env elapsed frame req)) ∧
    ∀ (m : Machine) (events : List Event), m.stack = [] → m.journal.logs = [] →
      m.journal.transfers = [] → m.Along env (Machine.WithdrawConforms env) events →
      intentTotal env (m.run env events).journal.logs * weiPerE8s ≤
        surrendered (m.run env events).journal.transfers := by
  constructor
  · intro elapsed j funded frame req hto hreach
    exact withdraw_backed_iff hto hreach
  · intro m events hstack hlogs htransfers hconf
    have hstart : m.Backed env := by
      refine ⟨?_, by simp [hstack]⟩
      simp [Covered, hlogs, htransfers, intentTotal, withdrawIntents]
    exact (Machine.backed_run hstart events hconf).journal

def withdrawTopicHash : Nat :=
  0x72d89bb92f926ffc5dc2463517ca56c40afd14bcbc2b100b9b4f72add43e7eca

def sampleEnv : Env where
  keccak256 := fun input =>
    if input = nativeWithdrawEventSignature then amountBytes (BitVec.ofNat 256 withdrawTopicHash)
    else zeroArr 32
  factory := zeroAddress
  access := ⟨true, false, true⟩
  otherPrecompile := fun _ _ => none

def sampleUser : Address := List.Vector.replicate 20 1

def sampleContract : Address := List.Vector.replicate 20 2

def richJournal : Journal where
  balance := fun _ => 10 ^ 30
  storage := fun _ _ => 0
  transfers := []
  logs := []

def withdrawInput : Bytes := [1, 1, 7] ++ List.replicate 28 0

def withdrawRequest (scheme : CallScheme) : CallRequest where
  scheme := scheme
  codeAddress := nativeWithdrawPrecompileAddress
  value := 10000000000
  input := withdrawInput
  gasLimit := 1000000

def payableFrame : Frame := ⟨sampleContract, sampleUser, 10000000000, false⟩

theorem delegate_accepted : WithdrawAccepted sampleEnv 0
    ((withdrawRequest .delegateCall).inputs payableFrame) [7] where
  external := rfl
  dynamic := rfl
  parsed := by decide
  aligned := by decide
  nonzero := by decide
  paid := by decide

theorem withdraw_delegate_unbacked :
    (withdrawRequest .delegateCall).Reaches payableFrame richJournal richJournal ∧
      ¬ WithdrawBacked sampleEnv 0 richJournal payableFrame (withdrawRequest .delegateCall) := by
  have hreach : (withdrawRequest .delegateCall).Reaches payableFrame richJournal richJournal :=
    ⟨rfl, rfl⟩
  refine ⟨hreach, ?_⟩
  rw [withdraw_backed_iff rfl hreach]
  rintro (⟨hdel, -⟩ | hrefused)
  · exact hdel rfl
  · exact hrefused [7] delegate_accepted

theorem withdraw_call_backed :
    WithdrawBacked sampleEnv 0 richJournal payableFrame (withdrawRequest .call) ∧
      intentTotal sampleEnv (Machine.run sampleEnv ⟨sampleUser, richJournal, []⟩
        [.precompile (withdrawRequest .call) 0]).journal.logs * weiPerE8s ≤
      surrendered (Machine.run sampleEnv ⟨sampleUser, richJournal, []⟩
        [.precompile (withdrawRequest .call) 0]).journal.transfers := by
  have hsafe (frame : Frame) : WithdrawSafe sampleEnv 0 frame (withdrawRequest .call) :=
    Or.inl ⟨by decide, rfl⟩
  have hmove : ∃ funded, (withdrawRequest .call).Reaches payableFrame richJournal funded :=
    ⟨_, rfl, rfl⟩
  obtain ⟨funded, hreach⟩ := hmove
  refine ⟨((native_withdraw_backed sampleEnv).1 0 _ funded _ _ rfl hreach).mpr (hsafe _), ?_⟩
  exact (native_withdraw_backed sampleEnv).2 _ _ rfl rfl rfl ⟨fun _ _ => hsafe _, trivial⟩

end Kasane.Precompile
