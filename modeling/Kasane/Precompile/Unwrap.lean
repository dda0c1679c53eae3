import Kasane.Precompile.Calls

namespace Kasane.Precompile

open BigEndian Codec Receipt

structure SlotsApart (env : Env) : Prop where
  balance_injective : Function.Injective (balanceSlot env)
  allowance_injective : Function.Injective (fun owner => allowanceSlot env owner env.factory)
  balance_ne_allowance : ∀ x y, balanceSlot env x ≠ allowanceSlot env y env.factory
  balance_ne_supply : ∀ x, balanceSlot env x ≠ wrappedTokenTotalSupplySlot
  allowance_ne_supply : ∀ x, allowanceSlot env x env.factory ≠ wrappedTokenTotalSupplySlot

def burnToken (env : Env) (j : Journal) (intent : UnwrapIntent) : Address :=
  loadFactoryTokenAddress env j (computeAssetKey env intent.assetId)

def burnAmount (intent : UnwrapIntent) : U256 := u256OfBytes intent.amount.toList

def tokenBalance (env : Env) (j : Journal) (token x : Address) : U256 :=
  j.sload token (balanceSlot env x)

def factoryAllowance (env : Env) (j : Journal) (token x : Address) : U256 :=
  j.sload token (allowanceSlot env x env.factory)

def tokenSupply (j : Journal) (token : Address) : U256 :=
  j.sload token wrappedTokenTotalSupplySlot

structure Burnable (env : Env) (j : Journal) (owner : Address) (intent : UnwrapIntent) : Prop where
  deployed : burnToken env j intent ≠ zeroAddress
  balance : burnAmount intent ≤ tokenBalance env j (burnToken env j intent) owner
  allowance : factoryAllowance env j (burnToken env j intent) owner = u256Max ∨
    burnAmount intent ≤ factoryAllowance env j (burnToken env j intent) owner
  supply : burnAmount intent ≤ tokenSupply j (burnToken env j intent)

def unwrapGas (inputs : CallInputs) (intent : UnwrapIntent) : Nat :=
  estimateWrapPrecompileGas inputs.input.length (encodeLogData intent).length abiDynamicFields

structure UnwrapAccepted (env : Env) (j : Journal) (inputs : CallInputs) (intent : UnwrapIntent) :
    Prop where
  external : env.access.wrapSideEffects = true
  dynamic : inputs.isStatic = false
  parsed : parseInput inputs.input = .ok intent
  burnable : Burnable env j inputs.caller intent
  paid : unwrapGas inputs intent ≤ inputs.gasLimit

@[simp] theorem sload_sstore (j : Journal) (a a' : Address) (s s' v : U256) :
    (j.sstore a s v).sload a' s' = if a' = a ∧ s' = s then v else j.sload a' s' := rfl

@[simp] theorem sload_log (j : Journal) (entry : LogEntry) (a : Address) (s : U256) :
    (j.log entry).sload a s = j.sload a s := rfl

structure Burned (env : Env) (j j' : Journal) (owner : Address) (intent : UnwrapIntent) : Prop where
  allowed : factoryAllowance env j (burnToken env j intent) owner = u256Max ∨
    burnAmount intent ≤ factoryAllowance env j (burnToken env j intent) owner
  storage : ∀ a s, j'.sload a s =
    if a = burnToken env j intent ∧ s = wrappedTokenTotalSupplySlot then
      tokenSupply j (burnToken env j intent) - burnAmount intent
    else if a = burnToken env j intent ∧ s = balanceSlot env owner then
      tokenBalance env j (burnToken env j intent) owner - burnAmount intent
    else if a = burnToken env j intent ∧ s = allowanceSlot env owner env.factory ∧
        factoryAllowance env j (burnToken env j intent) owner ≠ u256Max then
      factoryAllowance env j (burnToken env j intent) owner - burnAmount intent
    else j.sload a s

theorem spendAllowance_cases (env : Env) (j : Journal) (token owner : Address) (amount : U256) :
    (factoryAllowance env j token owner = u256Max ∧
        spendAllowance env j token owner amount = .ok (j, none)) ∨
      (factoryAllowance env j token owner ≠ u256Max ∧
        factoryAllowance env j token owner < amount ∧
        spendAllowance env j token owner amount = .error "erc20.insufficient_allowance") ∨
      (factoryAllowance env j token owner ≠ u256Max ∧
        amount ≤ factoryAllowance env j token owner ∧
        spendAllowance env j token owner amount =
          .ok (j.sstore token (allowanceSlot env owner env.factory)
              (factoryAllowance env j token owner - amount),
            some (factoryAllowance env j token owner - amount))) := by
  by_cases hmax : factoryAllowance env j token owner = u256Max
  · exact Or.inl ⟨hmax, by simp only [spendAllowance]; exact if_neg (not_not.mpr hmax)⟩
  · by_cases hless : factoryAllowance env j token owner < amount
    · refine Or.inr (Or.inl ⟨hmax, hless, ?_⟩)
      simp only [spendAllowance]
      exact (if_pos hmax).trans (if_pos hless)
    · refine Or.inr (Or.inr ⟨hmax, BitVec.not_lt.mp hless, ?_⟩)
      simp only [spendAllowance]
      exact (if_pos hmax).trans (if_neg hless)

theorem burnWrappedAsset_eq (env : Env) (j : Journal) (owner : Address) (intent : UnwrapIntent) :
    burnWrappedAsset env j owner intent =
      if burnToken env j intent = zeroAddress then .error "unwrap.token_not_deployed"
      else if tokenBalance env j (burnToken env j intent) owner < burnAmount intent then
        .error "erc20.insufficient_balance"
      else
        spendAllowance env j (burnToken env j intent) owner (burnAmount intent) >>= fun spent =>
          if tokenSupply spent.1 (burnToken env j intent) < burnAmount intent then
            .error "erc20.insufficient_balance"
          else .ok (settleBurn env spent.1 (burnToken env j intent) owner (burnAmount intent)
            (tokenBalance env j (burnToken env j intent) owner)
            (tokenSupply spent.1 (burnToken env j intent)) spent.2) := rfl

theorem sload_settleBurn (env : Env) (j : Journal) (token owner : Address)
    (amount balance totalSupply : U256) (approval : Option U256) (a : Address) (s : U256) :
    (settleBurn env j token owner amount balance totalSupply approval).sload a s =
      if a = token ∧ s = wrappedTokenTotalSupplySlot then totalSupply - amount
      else if a = token ∧ s = balanceSlot env owner then balance - amount
      else j.sload a s := by
  cases approval with
  | none => rfl
  | some next => rfl

theorem burnWrappedAsset_of_spend {env : Env} {j spent : Journal} {owner : Address}
    {intent : UnwrapIntent} {approval : Option U256}
    (hdeployed : burnToken env j intent ≠ zeroAddress)
    (hbalance : burnAmount intent ≤ tokenBalance env j (burnToken env j intent) owner)
    (hspend : spendAllowance env j (burnToken env j intent) owner (burnAmount intent) =
      .ok (spent, approval))
    (hsupply : burnAmount intent ≤ tokenSupply spent (burnToken env j intent)) :
    burnWrappedAsset env j owner intent =
      .ok (settleBurn env spent (burnToken env j intent) owner (burnAmount intent)
        (tokenBalance env j (burnToken env j intent) owner)
        (tokenSupply spent (burnToken env j intent)) approval) := by
  rw [burnWrappedAsset_eq, if_neg hdeployed, if_neg (BitVec.not_lt.mpr hbalance)]
  refine bind_eq_ok.mpr ⟨(spent, approval), hspend, ?_⟩
  dsimp only
  rw [if_neg (BitVec.not_lt.mpr hsupply)]

theorem tokenSupply_spent {env : Env} (hs : SlotsApart env) (j : Journal) (token owner : Address)
    (value : U256) :
    tokenSupply (j.sstore token (allowanceSlot env owner env.factory) value) token =
      tokenSupply j token := by
  have hne : ¬ (token = token ∧
      wrappedTokenTotalSupplySlot = allowanceSlot env owner env.factory) :=
    fun h => hs.allowance_ne_supply owner h.2.symm
  rw [tokenSupply, sload_sstore, if_neg hne]
  rfl

theorem burn_of_burnable {env : Env} (hs : SlotsApart env) {j : Journal} {owner : Address}
    {intent : UnwrapIntent} (h : Burnable env j owner intent) :
    ∃ j', burnWrappedAsset env j owner intent = .ok j' ∧ Burned env j j' owner intent := by
  obtain ⟨hdeployed, hbalance, hallow, hsupply⟩ := h
  rcases spendAllowance_cases env j (burnToken env j intent) owner (burnAmount intent) with
    ⟨hmax, hspend⟩ | ⟨hmax, hless, -⟩ | ⟨hmax, -, hspend⟩
  · refine ⟨_, burnWrappedAsset_of_spend hdeployed hbalance hspend hsupply, hallow, ?_⟩
    intro a s
    rw [sload_settleBurn]
    simp [hmax]
  · rcases hallow with heq | hle
    · exact absurd heq hmax
    · exact absurd hless (BitVec.not_lt.mpr hle)
  · have hspent := tokenSupply_spent hs j (burnToken env j intent) owner
      (factoryAllowance env j (burnToken env j intent) owner - burnAmount intent)
    refine ⟨_, burnWrappedAsset_of_spend hdeployed hbalance hspend (hspent.symm ▸ hsupply),
      hallow, ?_⟩
    intro a s
    rw [sload_settleBurn, hspent, sload_sstore]
    simp [hmax]

theorem burnable_of_ok {env : Env} (hs : SlotsApart env) {j j' : Journal} {owner : Address}
    {intent : UnwrapIntent} (h : burnWrappedAsset env j owner intent = .ok j') :
    Burnable env j owner intent := by
  rw [burnWrappedAsset_eq] at h
  split_ifs at h with hdeployed hbalance
  obtain ⟨⟨spent, approval⟩, hspend, hrest⟩ := bind_eq_ok.mp h
  dsimp only at hrest
  split_ifs at hrest with hsupply
  have hsupply' := BitVec.not_lt.mp hsupply
  rcases spendAllowance_cases env j (burnToken env j intent) owner (burnAmount intent) with
    ⟨hmax, hspend'⟩ | ⟨hmax, hless, hspend'⟩ | ⟨hmax, hle, hspend'⟩
  · obtain ⟨rfl, -⟩ := Prod.mk.inj (Except.ok.inj (hspend'.symm.trans hspend))
    exact ⟨hdeployed, BitVec.not_lt.mp hbalance, Or.inl hmax, hsupply'⟩
  · exact absurd (hspend'.symm.trans hspend) (by simp)
  · obtain ⟨rfl, -⟩ := Prod.mk.inj (Except.ok.inj (hspend'.symm.trans hspend))
    refine ⟨hdeployed, BitVec.not_lt.mp hbalance, Or.inr hle, ?_⟩
    rw [← tokenSupply_spent hs j (burnToken env j intent) owner
      (factoryAllowance env j (burnToken env j intent) owner - burnAmount intent)]
    exact hsupply'

theorem burned_spares {env : Env} (hs : SlotsApart env) {j j' : Journal} {owner : Address}
    {intent : UnwrapIntent} (h : Burned env j j' owner intent) {x : Address} (hx : x ≠ owner)
    (token : Address) :
    tokenBalance env j' token x = tokenBalance env j token x ∧
      factoryAllowance env j' token x = factoryAllowance env j token x := by
  constructor
  · rw [tokenBalance, h.storage]
    rw [if_neg (fun hc => hs.balance_ne_supply x hc.2),
      if_neg (fun hc => hx (hs.balance_injective hc.2)),
      if_neg (fun hc => hs.balance_ne_allowance x owner hc.2.1)]
    rfl
  · rw [factoryAllowance, h.storage]
    rw [if_neg (fun hc => hs.allowance_ne_supply x hc.2),
      if_neg (fun hc => hs.balance_ne_allowance owner x hc.2.symm),
      if_neg (fun hc => hx (hs.allowance_injective hc.2.1))]
    rfl

theorem burned_zero {env : Env} {j j' : Journal} {owner : Address} {intent : UnwrapIntent}
    (h : Burned env j j' owner intent) (hzero : burnAmount intent = 0) (a : Address) (s : U256) :
    j'.sload a s = j.sload a s := by
  rw [h.storage, hzero]
  split_ifs with hsupply hbalance hallow
  · obtain ⟨rfl, rfl⟩ := hsupply
    exact BitVec.sub_zero _
  · obtain ⟨rfl, rfl⟩ := hbalance
    exact BitVec.sub_zero _
  · obtain ⟨rfl, rfl, -⟩ := hallow
    exact BitVec.sub_zero _
  · rfl

theorem burned_owner_lt {env : Env} (hs : SlotsApart env) {j j' : Journal} {owner : Address}
    {intent : UnwrapIntent} (h : Burned env j j' owner intent)
    (hbalance : burnAmount intent ≤ tokenBalance env j (burnToken env j intent) owner)
    (hpos : burnAmount intent ≠ 0) :
    tokenBalance env j' (burnToken env j intent) owner <
      tokenBalance env j (burnToken env j intent) owner := by
  have hval : tokenBalance env j' (burnToken env j intent) owner =
      tokenBalance env j (burnToken env j intent) owner - burnAmount intent := by
    rw [tokenBalance, h.storage]
    rw [if_neg (fun hc => hs.balance_ne_supply owner hc.2), if_pos ⟨rfl, rfl⟩]
  have hamount : 0 < (burnAmount intent).toNat :=
    Nat.pos_of_ne_zero (fun hz => hpos (BitVec.eq_of_toNat_eq hz))
  rw [hval, BitVec.lt_def, BitVec.toNat_sub_of_le hbalance]
  have hle : (burnAmount intent).toNat ≤
      (tokenBalance env j (burnToken env j intent) owner).toNat := hbalance
  omega

theorem providerRun_wrap {env : Env} {elapsed : Nat} {ctx : Context} {inputs : CallInputs}
    (h : inputs.bytecodeAddress = wrapPrecompileAddress) :
    providerRun env elapsed ctx inputs =
      some (runWrapPrecompile env ctx inputs env.access.wrapSideEffects) := by
  simp only [providerRun, h, if_true, Option.map_some, extraGasForPrecompile, chargeExtraGas]

theorem runWrapPrecompile_return {env : Env} (hs : SlotsApart env) {ctx : Context}
    {inputs : CallInputs}
    (h : (runWrapPrecompile env ctx inputs env.access.wrapSideEffects).1.result = .return_) :
    ∃ intent, UnwrapAccepted env ctx.journal inputs intent ∧
      Burned env ctx.journal
        (runWrapPrecompile env ctx inputs env.access.wrapSideEffects).2.journal inputs.caller
        intent := by
  have hfail (msg : String) : (precompileFail ctx inputs.gasLimit msg).1.result ≠ .return_ := by
    simp [precompileFail]
  rw [runWrapPrecompile] at h ⊢
  split_ifs at h ⊢ with hext hstatic
  · exact absurd h (hfail _)
  · exact absurd h (hfail _)
  · cases hparse : parseInput inputs.input with
    | error code =>
        simp only [hparse] at h
        exact absurd h (hfail _)
    | ok intent =>
        simp only [hparse] at h
        dsimp only
        cases hburn : burnWrappedAsset env ctx.journal (unwrapOwner inputs) intent with
        | error code =>
            simp only [hburn] at h
            exact absurd h (hfail _)
        | ok journal =>
            simp only [hburn] at h
            have hburnable := burnable_of_ok hs hburn
            obtain ⟨j', hj', hburned⟩ := burn_of_burnable hs hburnable
            obtain rfl := Except.ok.inj (hburn.symm.trans hj')
            have hpaid : unwrapGas inputs intent ≤ inputs.gasLimit := by
              by_contra hgas
              rw [unwrapGas] at hgas
              rw [chargeReturn_of_not_le hgas] at h
              exact absurd h (by simp)
            exact ⟨intent, ⟨by simpa using hext, by simpa using hstatic, hparse, hburnable, hpaid⟩,
              hburned.allowed, hburned.storage⟩

theorem runWrapPrecompile_accepted {env : Env} (hs : SlotsApart env) (ctx : Context)
    {inputs : CallInputs} {intent : UnwrapIntent} (h : UnwrapAccepted env ctx.journal inputs intent) :
    (runWrapPrecompile env ctx inputs env.access.wrapSideEffects).1.result = .return_ := by
  obtain ⟨j', hburn, -⟩ := burn_of_burnable hs h.burnable
  have hburn' : burnWrappedAsset env ctx.journal (unwrapOwner inputs) intent = .ok j' := hburn
  simp only [runWrapPrecompile, h.external, Bool.true_eq_false, if_false, h.dynamic,
    Bool.false_eq_true, h.parsed, hburn']
  have hpaid := h.paid
  rw [unwrapGas] at hpaid
  rw [chargeReturn_of_le hpaid]

theorem burnable_congr {env : Env} {j k : Journal} (h : j.storage = k.storage) {owner : Address}
    {intent : UnwrapIntent} (hb : Burnable env j owner intent) : Burnable env k owner intent := by
  have hload : ∀ a s, k.sload a s = j.sload a s := fun a s => by rw [Journal.sload, ← h]; rfl
  have htoken : burnToken env k intent = burnToken env j intent := by
    apply Subtype.ext
    simp only [burnToken, loadFactoryTokenAddress, hload]
  obtain ⟨hd, hbal, hal, hsup⟩ := hb
  constructor
  · rw [htoken]
    exact hd
  · rw [htoken, tokenBalance, hload]
    exact hbal
  · rw [htoken, factoryAllowance, hload]
    exact hal
  · rw [htoken, tokenSupply, hload]
    exact hsup

theorem accepted_congr {env : Env} {j k : Journal} (h : j.storage = k.storage)
    {inputs : CallInputs} {intent : UnwrapIntent} (ha : UnwrapAccepted env j inputs intent) :
    UnwrapAccepted env k inputs intent :=
  ⟨ha.external, ha.dynamic, ha.parsed, burnable_congr h ha.burnable, ha.paid⟩

def UnwrapSparesOthers (env : Env) (j j' : Journal) (frame : Frame) : Prop :=
  ∀ token x, x ≠ frame.self →
    tokenBalance env j token x ≤ tokenBalance env j' token x ∧
      factoryAllowance env j token x ≤ factoryAllowance env j' token x

def UnwrapAuthorised (env : Env) (elapsed : Nat) (j : Journal) (frame : Frame)
    (req : CallRequest) : Prop :=
  ∀ j', callPrecompile env elapsed j frame req = some j' → UnwrapSparesOthers env j j' frame

def UnwrapSafe (env : Env) (j : Journal) (frame : Frame) (req : CallRequest) : Prop :=
  req.scheme ≠ .delegateCall ∨ frame.caller = frame.self ∨
    ∀ intent, UnwrapAccepted env j (req.inputs frame) intent → burnAmount intent = 0

theorem inputs_caller_of_not_delegate {req : CallRequest} (frame : Frame)
    (h : req.scheme ≠ .delegateCall) : (req.inputs frame).caller = frame.self := by
  obtain ⟨scheme, codeAddress, value, input, gasLimit⟩ := req
  cases scheme with
  | call => rfl
  | callCode => rfl
  | staticCall => rfl
  | delegateCall => exact absurd rfl h

theorem inputs_caller_of_delegate {req : CallRequest} (frame : Frame)
    (h : req.scheme = .delegateCall) : (req.inputs frame).caller = frame.caller := by
  simp [CallRequest.inputs, h]

theorem callPrecompile_wrap {env : Env} (hs : SlotsApart env) {elapsed : Nat} {j j' : Journal}
    {frame : Frame} {req : CallRequest} (hto : req.codeAddress = wrapPrecompileAddress)
    (h : callPrecompile env elapsed j frame req = some j') :
    ∃ funded intent, funded.storage = j.storage ∧
      UnwrapAccepted env j (req.inputs frame) intent ∧
      Burned env funded j' (req.inputs frame).caller intent := by
  obtain ⟨funded, out, ctx, hreach, hrun, hret, rfl⟩ := callPrecompile_eq_some h
  have hcode : (req.inputs frame).bytecodeAddress = wrapPrecompileAddress := hto
  rw [providerRun_wrap hcode] at hrun
  have hrun' := Option.some.inj hrun
  obtain ⟨intent, hacc, hburned⟩ := runWrapPrecompile_return hs (by rw [hrun']; exact hret)
  rw [hrun'] at hburned
  have hstorage := (moveValue_keeps hreach.funded).2.1
  exact ⟨funded, intent, hstorage, accepted_congr hstorage hacc, hburned⟩

theorem spares_of_safe {env : Env} (hs : SlotsApart env) {elapsed : Nat} {j : Journal}
    {frame : Frame} {req : CallRequest} (hto : req.codeAddress = wrapPrecompileAddress)
    (hsafe : UnwrapSafe env j frame req) : UnwrapAuthorised env elapsed j frame req := by
  intro j' hcall token x hx
  obtain ⟨funded, intent, hstorage, hacc, hburned⟩ := callPrecompile_wrap hs hto hcall
  have hload : ∀ a s, funded.sload a s = j.sload a s :=
    fun a s => by rw [Journal.sload, hstorage]; rfl
  have howner (hown : (req.inputs frame).caller = frame.self) :
      tokenBalance env j token x ≤ tokenBalance env j' token x ∧
        factoryAllowance env j token x ≤ factoryAllowance env j' token x := by
    obtain ⟨hbal, hal⟩ := burned_spares hs hburned (hown.symm ▸ hx) token
    rw [hbal, hal, tokenBalance, tokenBalance, factoryAllowance, factoryAllowance, hload, hload]
    exact ⟨BitVec.le_refl _, BitVec.le_refl _⟩
  rcases hsafe with hscheme | hsame | hzero
  · exact howner (inputs_caller_of_not_delegate frame hscheme)
  · by_cases hscheme : req.scheme = .delegateCall
    · exact howner ((inputs_caller_of_delegate frame hscheme).trans hsame)
    · exact howner (inputs_caller_of_not_delegate frame hscheme)
  · have hsame := burned_zero hburned (hzero intent hacc)
    simp only [tokenBalance, factoryAllowance, hsame, hload]
    exact ⟨BitVec.le_refl _, BitVec.le_refl _⟩

theorem safe_of_spares {env : Env} (hs : SlotsApart env) {elapsed : Nat} {j funded : Journal}
    {frame : Frame} {req : CallRequest} (hto : req.codeAddress = wrapPrecompileAddress)
    (hreach : req.Reaches frame j funded)
    (h : UnwrapAuthorised env elapsed j frame req) : UnwrapSafe env j frame req := by
  by_contra hunsafe
  obtain ⟨hscheme, hcaller, hburns⟩ : req.scheme = .delegateCall ∧ frame.caller ≠ frame.self ∧
      ∃ intent, UnwrapAccepted env j (req.inputs frame) intent ∧ burnAmount intent ≠ 0 := by
    simpa [UnwrapSafe] using hunsafe
  obtain ⟨intent, hacc, hpos⟩ := hburns
  have hstorage := (moveValue_keeps hreach.funded).2.1
  have hload : ∀ a s, funded.sload a s = j.sload a s :=
    fun a s => by rw [Journal.sload, hstorage]; rfl
  have hacc' := accepted_congr hstorage.symm hacc
  have hcode : (req.inputs frame).bytecodeAddress = wrapPrecompileAddress := hto
  have hret := runWrapPrecompile_accepted hs ⟨funded, none⟩ hacc'
  have hcall : callPrecompile env elapsed j frame req =
      some (runWrapPrecompile env ⟨funded, none⟩ (req.inputs frame)
        env.access.wrapSideEffects).2.journal := by
    simp only [callPrecompile, hreach.permitted, Bool.false_eq_true, if_false, hreach.funded,
      Option.bind_eq_bind, Option.bind_some, providerRun_wrap hcode, if_pos hret]
  obtain ⟨intent', hacc'', hburned⟩ := runWrapPrecompile_return hs hret
  obtain rfl : intent' = intent := Except.ok.inj (hacc''.parsed.symm.trans hacc'.parsed)
  have howner := inputs_caller_of_delegate frame hscheme
  have hlt := burned_owner_lt hs hburned hacc''.burnable.balance hpos
  have hle := (h _ hcall (burnToken env funded intent') (req.inputs frame).caller
    (howner ▸ hcaller)).1
  have hsame : tokenBalance env funded (burnToken env funded intent') (req.inputs frame).caller =
      tokenBalance env j (burnToken env funded intent') (req.inputs frame).caller := hload _ _
  rw [hsame] at hlt
  exact absurd hlt (BitVec.not_lt.mpr hle)

namespace Machine

def UnwrapConforms (env : Env) (m : Machine) : Event → Prop
  | .precompile req _ => req.codeAddress = wrapPrecompileAddress → m.issues req →
      UnwrapSafe env m.journal m.frame req
  | _ => True

end Machine

theorem unwrap_burns_issuer_only (env : Env) (hs : SlotsApart env) :
    (∀ elapsed j funded frame req, req.codeAddress = wrapPrecompileAddress →
      req.Reaches frame j funded →
      (UnwrapAuthorised env elapsed j frame req ↔ UnwrapSafe env j frame req)) ∧
    ∀ (m : Machine) (events : List Event), m.Along env (Machine.UnwrapConforms env) events →
      ∀ before req elapsed after, events = before ++ .precompile req elapsed :: after →
        req.codeAddress = wrapPrecompileAddress →
        UnwrapSparesOthers env (m.run env before).journal
          ((m.run env before).step env (.precompile req elapsed)).journal
          (m.run env before).frame := by
  constructor
  · intro elapsed j funded frame req hto hreach
    exact ⟨safe_of_spares hs hto hreach, spares_of_safe hs hto⟩
  · rintro m events hconf before req elapsed after rfl hto
    have hhere := Machine.along_split hconf
    have hstill (j : Journal) (frame : Frame) : UnwrapSparesOthers env j j frame :=
      fun _ _ _ => ⟨BitVec.le_refl _, BitVec.le_refl _⟩
    simp only [Machine.step]
    split_ifs with hbad
    · exact hstill _ _
    · obtain ⟨hissues, -⟩ := by simpa only [not_or, not_not] using hbad
      split
      · exact hstill _ _
      · rename_i j' hcall
        exact spares_of_safe hs hto (hhere hto hissues) j' hcall

def unwrapUser : Address := List.Vector.replicate 20 1

def unwrapContract : Address := List.Vector.replicate 20 2

def unwrapFactory : Address := List.Vector.replicate 20 3

def unwrapToken : Address := List.Vector.replicate 20 4

def userWord : Nat := 0x0101010101010101010101010101010101010101

def userBalanceSlot : Nat :=
  0x06586398817d3135e7cdfaaece76017b99af82139e2ba1d4e48aa39a417ec8ec

def userAllowanceOuterSlot : Nat :=
  0x277d122c424454576b897180359099e7e6d3c9ea983733dcc7bb21f334865502

def userAllowanceSlot : Nat :=
  0x8c29fbd576a64ad31dd72855ebeef9d08c4653a7ec791caa6c87e3abe46084c1

def assetTokenSlot : Nat :=
  0x0d685d401e1c101b59f82deda6fb510f193af715ea073231a99987c3044f0d0d

def assetKeyHash : Nat :=
  0x0b8d4aad53f0f214ea0288698daec55192627058fa158c10eac3a3b2ce1d14d7

def unwrapTopicHash : Nat :=
  0xe4554b7659f844d6cdab38b6214f1b263cee02c58268a5be1ddc54a33c27dbee

def approvalTopicHash : Nat :=
  0x8c5be1e5ebec7d5bd14f71427d1e84f3dd0314c0f7b2291e5b200ac8c7c3b925

def transferTopicHash : Nat :=
  0xddf252ad1be2c89b69c2b068fc378daa952ba7f163c4a11628f55a4df523b3ef

def slotHash (key slot : Nat) : Nat :=
  if slot = 3 then if key = userWord then userBalanceSlot else 2 ^ 248 + key
  else if slot = 4 then if key = userWord then userAllowanceOuterSlot else 2 * 2 ^ 248 + key
  else if slot = 0 then assetTokenSlot
  else if slot = userAllowanceOuterSlot then userAllowanceSlot
  else 3 * 2 ^ 248 + slot % 2 ^ 248

def sampleHash (input : Bytes) : Nat :=
  if input.length = 64 then slotHash (decode (input.take 32)) (decode (input.drop 32))
  else if input = wrapEventSignature then unwrapTopicHash
  else if input = approvalEventSignature then approvalTopicHash
  else if input = transferEventSignature then transferTopicHash
  else assetKeyHash

def unwrapEnv : Env where
  keccak256 := fun input => amountBytes (BitVec.ofNat 256 (sampleHash input))
  factory := unwrapFactory
  access := ⟨true, false, true⟩
  otherPrecompile := fun _ _ => none

theorem mappingSlot_unwrapEnv (key : ByteArr 32) (slot : U256) :
    mappingSlot unwrapEnv key slot =
      BitVec.ofNat 256 (slotHash (decode key.toList) slot.toNat) := by
  have hslot : decode (u256Bytes slot) = slot.toNat := decode_encode_of_lt slot.isLt
  have hlen : (key.toList ++ u256Bytes slot).length = 64 := by
    rw [List.length_append, key.toList_length, u256Bytes, length_encode]
  have htake : (key.toList ++ u256Bytes slot).take 32 = key.toList :=
    List.take_left' key.toList_length
  have hdrop : (key.toList ++ u256Bytes slot).drop 32 = u256Bytes slot :=
    List.drop_left' key.toList_length
  simp only [mappingSlot, unwrapEnv, u256OfBytes_amountBytes, sampleHash, hlen, if_true, htake,
    hdrop, hslot]

def addressNumber (a : Address) : Nat := decode a.toList

theorem addressNumber_lt (a : Address) : addressNumber a < 2 ^ 160 := by
  have h := decode_lt a.toList
  rw [a.toList_length] at h
  exact h

theorem decode_addressWord (a : Address) : decode (addressWord a).toList = addressNumber a :=
  decode_replicate_zero_append 12 a.toList

def balanceNumber (n : Nat) : Nat := if n = userWord then userBalanceSlot else 2 ^ 248 + n

def allowanceNumber (n : Nat) : Nat := if n = userWord then userAllowanceSlot else 3 * 2 ^ 248 + n

theorem balanceSlot_unwrapEnv (a : Address) :
    balanceSlot unwrapEnv a = BitVec.ofNat 256 (balanceNumber (addressNumber a)) := by
  rw [balanceSlot, addressMappingSlot, mappingSlot_unwrapEnv, decode_addressWord]
  rfl

theorem allowanceSlot_unwrapEnv (a : Address) :
    allowanceSlot unwrapEnv a unwrapEnv.factory =
      BitVec.ofNat 256 (allowanceNumber (addressNumber a)) := by
  have hlt := addressNumber_lt a
  rw [allowanceSlot, addressMappingSlot, mappingSlot_unwrapEnv, mappingSlot_unwrapEnv,
    decode_addressWord, decode_addressWord]
  congr 1
  by_cases huser : addressNumber a = userWord
  · rw [huser]
    rfl
  · have houter : (BitVec.ofNat 256 (slotHash (addressNumber a)
        wrappedTokenAllowanceSlot.toNat)).toNat = 2 * 2 ^ 248 + addressNumber a := by
      have hval : slotHash (addressNumber a) wrappedTokenAllowanceSlot.toNat =
          2 * 2 ^ 248 + addressNumber a := by
        simp only [slotHash, wrappedTokenAllowanceSlot, huser]
        rfl
      rw [hval, BitVec.toNat_ofNat]
      omega
    have hmod : (2 * 2 ^ 248 + addressNumber a) % 2 ^ 248 = addressNumber a := by omega
    have hne : 2 * 2 ^ 248 + addressNumber a ≠ userAllowanceOuterSlot := by
      simp only [userAllowanceOuterSlot]
      omega
    rw [houter, slotHash, if_neg (by omega), if_neg (by omega), if_neg (by omega), if_neg hne,
      allowanceNumber, if_neg huser, hmod]

theorem balanceNumber_lt {n : Nat} (h : n < 2 ^ 160) : balanceNumber n < 2 ^ 256 := by
  simp only [balanceNumber, userBalanceSlot]
  split_ifs <;> omega

theorem allowanceNumber_lt {n : Nat} (h : n < 2 ^ 160) : allowanceNumber n < 2 ^ 256 := by
  simp only [allowanceNumber, userAllowanceSlot]
  split_ifs <;> omega

theorem ofNat_ne_of_lt {m n : Nat} (hm : m < 2 ^ 256) (hn : n < 2 ^ 256) (h : m ≠ n) :
    BitVec.ofNat 256 m ≠ BitVec.ofNat 256 n := by
  intro heq
  have hnat := congrArg BitVec.toNat heq
  rw [BitVec.toNat_ofNat, BitVec.toNat_ofNat, Nat.mod_eq_of_lt hm, Nat.mod_eq_of_lt hn] at hnat
  exact h hnat

theorem slotsApart_unwrapEnv : SlotsApart unwrapEnv where
  balance_injective := by
    intro x y h
    by_contra hne
    have hnum : addressNumber x ≠ addressNumber y := fun heq => hne (decode_injective heq)
    have hx := addressNumber_lt x
    have hy := addressNumber_lt y
    rw [balanceSlot_unwrapEnv, balanceSlot_unwrapEnv] at h
    refine ofNat_ne_of_lt (balanceNumber_lt hx) (balanceNumber_lt hy) ?_ h
    simp only [balanceNumber, userBalanceSlot]
    split_ifs <;> omega
  allowance_injective := by
    intro x y h
    by_contra hne
    have hnum : addressNumber x ≠ addressNumber y := fun heq => hne (decode_injective heq)
    have hx := addressNumber_lt x
    have hy := addressNumber_lt y
    dsimp only at h
    rw [allowanceSlot_unwrapEnv, allowanceSlot_unwrapEnv] at h
    refine ofNat_ne_of_lt (allowanceNumber_lt hx) (allowanceNumber_lt hy) ?_ h
    simp only [allowanceNumber, userAllowanceSlot]
    split_ifs <;> omega
  balance_ne_allowance := by
    intro x y
    have hx := addressNumber_lt x
    have hy := addressNumber_lt y
    rw [balanceSlot_unwrapEnv, allowanceSlot_unwrapEnv]
    refine ofNat_ne_of_lt (balanceNumber_lt hx) (allowanceNumber_lt hy) ?_
    simp only [balanceNumber, userBalanceSlot, allowanceNumber, userAllowanceSlot]
    split_ifs <;> omega
  balance_ne_supply := by
    intro x
    have hx := addressNumber_lt x
    rw [balanceSlot_unwrapEnv]
    refine ofNat_ne_of_lt (n := 2) (balanceNumber_lt hx) (by decide) ?_
    simp only [balanceNumber, userBalanceSlot]
    split_ifs <;> omega
  allowance_ne_supply := by
    intro x
    have hx := addressNumber_lt x
    rw [allowanceSlot_unwrapEnv]
    refine ofNat_ne_of_lt (n := 2) (allowanceNumber_lt hx) (by decide) ?_
    simp only [allowanceNumber, userAllowanceSlot]
    split_ifs <;> omega

def unwrapInput : Bytes :=
  [1, 1, 9] ++ (List.replicate 28 0 ++ (u256Bytes 100 ++ ([1, 8] ++ List.replicate 28 0)))

def unwrapRequest (scheme : CallScheme) : CallRequest where
  scheme := scheme
  codeAddress := wrapPrecompileAddress
  value := 0
  input := unwrapInput
  gasLimit := 1000000

def unwrapStorage (account : Address) (slot : U256) : U256 :=
  if account = unwrapFactory ∧ slot = BitVec.ofNat 256 assetTokenSlot then
    u256OfBytes unwrapToken.toList
  else if account = unwrapToken then
    if slot = BitVec.ofNat 256 userBalanceSlot then 100
    else if slot = BitVec.ofNat 256 userAllowanceSlot then 100
    else if slot = wrappedTokenTotalSupplySlot then 100
    else 0
  else 0

def unwrapJournal : Journal where
  balance := fun _ => 0
  storage := unwrapStorage
  transfers := []
  logs := []

def unwrapIntent : UnwrapIntent := ⟨[9], amountBytes 100, [8]⟩

def contractFrame : Frame := ⟨unwrapContract, unwrapUser, 0, false⟩

theorem delegate_unwrap_accepted : UnwrapAccepted unwrapEnv unwrapJournal
    ((unwrapRequest .delegateCall).inputs contractFrame) unwrapIntent where
  external := rfl
  dynamic := rfl
  parsed := by decide +kernel
  burnable := {
    deployed := by decide +kernel
    balance := by decide +kernel
    allowance := by decide +kernel
    supply := by decide +kernel }
  paid := by decide +kernel

theorem unwrap_delegate_burns_user :
    (unwrapRequest .delegateCall).Reaches contractFrame unwrapJournal unwrapJournal ∧
      ¬ UnwrapAuthorised unwrapEnv 0 unwrapJournal contractFrame (unwrapRequest .delegateCall) := by
  have hreach : (unwrapRequest .delegateCall).Reaches contractFrame unwrapJournal unwrapJournal :=
    ⟨rfl, rfl⟩
  refine ⟨hreach, ?_⟩
  intro hauth
  rcases safe_of_spares slotsApart_unwrapEnv rfl hreach hauth with hscheme | hsame | hzero
  · exact hscheme rfl
  · exact absurd hsame (by decide)
  · exact absurd (hzero unwrapIntent delegate_unwrap_accepted) (by decide +kernel)

theorem unwrap_call_burns_issuer :
    SlotsApart unwrapEnv ∧
      UnwrapAuthorised unwrapEnv 0 unwrapJournal (topFrame unwrapUser) (unwrapRequest .call) ∧
      UnwrapSparesOthers unwrapEnv unwrapJournal
        (Machine.step unwrapEnv ⟨unwrapUser, unwrapJournal, []⟩
          (.precompile (unwrapRequest .call) 0)).journal (topFrame unwrapUser) := by
  have hsafe (j : Journal) (frame : Frame) : UnwrapSafe unwrapEnv j frame (unwrapRequest .call) :=
    Or.inl (by decide)
  have hreach : ∃ funded, (unwrapRequest .call).Reaches (topFrame unwrapUser) unwrapJournal funded :=
    ⟨_, rfl, rfl⟩
  obtain ⟨funded, hreach⟩ := hreach
  obtain ⟨hcall, hrun⟩ := unwrap_burns_issuer_only unwrapEnv slotsApart_unwrapEnv
  refine ⟨slotsApart_unwrapEnv, (hcall 0 _ funded _ _ rfl hreach).mpr (hsafe _ _), ?_⟩
  exact hrun ⟨unwrapUser, unwrapJournal, []⟩ [.precompile (unwrapRequest .call) 0]
    ⟨fun _ _ => hsafe _ _, trivial⟩ [] _ _ [] rfl rfl

end Kasane.Precompile
