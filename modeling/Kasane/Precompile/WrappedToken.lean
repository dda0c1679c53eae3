import Kasane.Lib.Holdings
import Kasane.Precompile.Unwrap
import Mathlib.Data.Fintype.Vector

namespace Kasane.Precompile

open BigEndian Codec Receipt Holdings

instance instFintypeUInt8 : Fintype UInt8 :=
  Fintype.ofEquiv (Fin 256) ⟨fun i => UInt8.ofFin i, UInt8.toFin, fun _ => rfl, fun _ => rfl⟩

-- the storage of one WrappedAssetToken contract, under the contract's own names
@[ext]
structure WrappedAssetToken where
  totalSupply : U256
  balanceOf : Address → U256
  allowance : Address → Address → U256

inductive TokenEvent where
  | transfer (source target : Address) (value : U256)
  | approval (owner spender : Address) (value : U256)
deriving DecidableEq

def checkedAdd (a b : U256) : Except String U256 :=
  if a.toNat + b.toNat < 2 ^ 256 then .ok (a + b) else .error "panic.arithmetic"

def checkedSub (a b : U256) : Except String U256 :=
  if b ≤ a then .ok (a - b) else .error "panic.arithmetic"

namespace WrappedAssetToken

def deployed : WrappedAssetToken := ⟨0, fun _ => 0, fun _ _ => 0⟩

def setBalance (t : WrappedAssetToken) (x : Address) (value : U256) : WrappedAssetToken :=
  { t with balanceOf := Function.update t.balanceOf x value }

def setAllowance (t : WrappedAssetToken) (owner spender : Address) (value : U256) :
    WrappedAssetToken :=
  { t with
    allowance := Function.update t.allowance owner
      (Function.update (t.allowance owner) spender value) }

def spendAllowance (t : WrappedAssetToken) (owner spender : Address) (amount : U256) :
    Except String (WrappedAssetToken × List TokenEvent) :=
  let allowed := t.allowance owner spender
  if allowed ≠ u256Max then
    if allowed < amount then .error "erc20.insufficient_allowance"
    else
      .ok (t.setAllowance owner spender (allowed - amount),
        [.approval owner spender (allowed - amount)])
  else .ok (t, [])

def innerTransfer (t : WrappedAssetToken) (source target : Address) (amount : U256) :
    Except String (WrappedAssetToken × List TokenEvent) :=
  if target = zeroAddress then .error "arg.to_zero"
  else if t.balanceOf source < amount then .error "erc20.insufficient_balance"
  else do
    let debited ← checkedSub (t.balanceOf source) amount
    let t := t.setBalance source debited
    let credited ← checkedAdd (t.balanceOf target) amount
    pure (t.setBalance target credited, [.transfer source target amount])

def innerBurn (t : WrappedAssetToken) (source : Address) (amount : U256) :
    Except String (WrappedAssetToken × List TokenEvent) :=
  if t.balanceOf source < amount then .error "erc20.insufficient_balance"
  else do
    let debited ← checkedSub (t.balanceOf source) amount
    let t := t.setBalance source debited
    let totalSupply ← checkedSub t.totalSupply amount
    pure ({ t with totalSupply }, [.transfer source zeroAddress amount])

def transfer (t : WrappedAssetToken) (msgSender target : Address) (amount : U256) :
    Except String (WrappedAssetToken × List TokenEvent) :=
  t.innerTransfer msgSender target amount

def approve (t : WrappedAssetToken) (msgSender spender : Address) (amount : U256) :
    Except String (WrappedAssetToken × List TokenEvent) :=
  .ok (t.setAllowance msgSender spender amount, [.approval msgSender spender amount])

def transferFrom (t : WrappedAssetToken) (msgSender source target : Address) (amount : U256) :
    Except String (WrappedAssetToken × List TokenEvent) := do
  let (t, approvals) ← t.spendAllowance source msgSender amount
  let (t, transfers) ← t.innerTransfer source target amount
  pure (t, approvals ++ transfers)

def mint (factory : Address) (t : WrappedAssetToken) (msgSender target : Address) (amount : U256) :
    Except String (WrappedAssetToken × List TokenEvent) :=
  if msgSender ≠ factory then .error "auth.factory_required"
  else if target = zeroAddress then .error "arg.to_zero"
  else do
    let totalSupply ← checkedAdd t.totalSupply amount
    let credited ← checkedAdd (t.balanceOf target) amount
    pure ({ t with totalSupply }.setBalance target credited, [.transfer zeroAddress target amount])

def burnFromByFactory (factory : Address) (t : WrappedAssetToken) (msgSender source : Address)
    (amount : U256) : Except String (WrappedAssetToken × List TokenEvent) :=
  if msgSender ≠ factory then .error "auth.factory_required"
  else do
    let (t, approvals) ← t.spendAllowance source msgSender amount
    let (t, transfers) ← t.innerBurn source amount
    pure (t, approvals ++ transfers)

end WrappedAssetToken

inductive TokenCall where
  | transfer (msgSender target : Address) (amount : U256)
  | approve (msgSender spender : Address) (amount : U256)
  | transferFrom (msgSender source target : Address) (amount : U256)
  | mint (msgSender target : Address) (amount : U256)
  | burnFromByFactory (msgSender source : Address) (amount : U256)
deriving DecidableEq

def TokenCall.run (factory : Address) (t : WrappedAssetToken) :
    TokenCall → Except String (WrappedAssetToken × List TokenEvent)
  | .transfer msgSender target amount => t.transfer msgSender target amount
  | .approve msgSender spender amount => t.approve msgSender spender amount
  | .transferFrom msgSender source target amount => t.transferFrom msgSender source target amount
  | .mint msgSender target amount => t.mint factory msgSender target amount
  | .burnFromByFactory msgSender source amount => t.burnFromByFactory factory msgSender source amount

section

variable (env : Env)

-- what the compiler's layout makes of a token account's slots
def tokenState (j : Journal) (token : Address) : WrappedAssetToken where
  totalSupply := tokenSupply j token
  balanceOf := tokenBalance env j token
  allowance := fun owner spender => j.sload token (allowanceSlot env owner spender)

def TokenEvent.entry (token : Address) : TokenEvent → LogEntry
  | .transfer source target value => tokenLog env token transferEventSignature source target value
  | .approval owner spender value => tokenLog env token approvalEventSignature owner spender value

-- the slots of the mappings do not run into each other where the factory is the spender
structure TokenLayout : Prop where
  apart : SlotsApart env
  allowance_own : ∀ owner x y, allowanceSlot env x y = allowanceSlot env owner env.factory →
    x = owner ∧ y = env.factory
  balance_ne_allowance : ∀ x y z, balanceSlot env x ≠ allowanceSlot env y z
  allowance_ne_supply : ∀ x y, allowanceSlot env x y ≠ wrappedTokenTotalSupplySlot

structure BurnAgrees (j : Journal) (owner : Address) (intent : UnwrapIntent) : Prop where
  succeeds : (∃ j', burnWrappedAsset env j owner intent = .ok j') ↔
    burnToken env j intent ≠ zeroAddress ∧ ∃ r, WrappedAssetToken.burnFromByFactory env.factory
      (tokenState env j (burnToken env j intent)) env.factory owner (burnAmount intent) = .ok r
  effect : ∀ j' after events, burnWrappedAsset env j owner intent = .ok j' →
    WrappedAssetToken.burnFromByFactory env.factory (tokenState env j (burnToken env j intent))
      env.factory owner (burnAmount intent) = .ok (after, events) →
    tokenState env j' (burnToken env j intent) = after ∧
      j'.logs = j.logs ++ events.map (TokenEvent.entry env (burnToken env j intent))
  frame : ∀ j', burnWrappedAsset env j owner intent = .ok j' →
    j'.balance = j.balance ∧ j'.transfers = j.transfers ∧
      ∀ a s, ¬ (a = burnToken env j intent ∧ (s = wrappedTokenTotalSupplySlot ∨
        s = balanceSlot env owner ∨ s = allowanceSlot env owner env.factory)) →
        j'.sload a s = j.sload a s

-- calls of the contract as the compiler promises them, burns as the precompile performs them
inductive TokenRun (token : Address) (j₀ : Journal) : Journal → Prop
  | start : TokenRun token j₀ j₀
  | call {j j' : Journal} {after : WrappedAssetToken} {events : List TokenEvent}
      (run : TokenRun token j₀ j) (call : TokenCall)
      (returns : call.run env.factory (tokenState env j token) = .ok (after, events))
      (stored : tokenState env j' token = after) : TokenRun token j₀ j'
  | burn {j j' : Journal} (run : TokenRun token j₀ j) (owner : Address) (intent : UnwrapIntent)
      (burns : burnWrappedAsset env j owner intent = .ok j') : TokenRun token j₀ j'
  | elsewhere {j j' : Journal} (run : TokenRun token j₀ j)
      (same : ∀ s, j'.sload token s = j.sload token s) : TokenRun token j₀ j'

end

def WrappedAssetToken.Backed (t : WrappedAssetToken) : Prop :=
  total (fun x => (t.balanceOf x).toNat) = t.totalSupply.toNat

theorem checkedSub_ok {a b r : U256} : checkedSub a b = .ok r ↔ b ≤ a ∧ r = a - b := by
  rw [checkedSub]
  split_ifs with h
  · simp [h, eq_comm]
  · simp [h]

theorem checkedAdd_ok {a b r : U256} :
    checkedAdd a b = .ok r ↔ a.toNat + b.toNat < 2 ^ 256 ∧ r = a + b := by
  rw [checkedAdd]
  split_ifs with h
  · exact ⟨fun hr => ⟨h, (Except.ok.inj hr).symm⟩, fun hr => congrArg Except.ok hr.2.symm⟩
  · exact ⟨fun hr => absurd hr (by simp), fun hr => absurd hr.1 h⟩

namespace WrappedAssetToken

@[simp] theorem balanceOf_setBalance (t : WrappedAssetToken) (x y : Address) (value : U256) :
    (t.setBalance x value).balanceOf y = if y = x then value else t.balanceOf y :=
  Function.update_apply ..

@[simp] theorem allowance_setAllowance (t : WrappedAssetToken) (owner spender x y : Address)
    (value : U256) : (t.setAllowance owner spender value).allowance x y =
      if x = owner ∧ y = spender then value else t.allowance x y := by
  simp only [setAllowance, Function.update_apply]
  split_ifs <;> simp_all

theorem spendAllowance_ok {t : WrappedAssetToken} {owner spender : Address} {amount : U256}
    {r : WrappedAssetToken × List TokenEvent} :
    t.spendAllowance owner spender amount = .ok r ↔
      (t.allowance owner spender = u256Max ∧ r = (t, [])) ∨
      (t.allowance owner spender ≠ u256Max ∧ amount ≤ t.allowance owner spender ∧
        r = (t.setAllowance owner spender (t.allowance owner spender - amount),
          [.approval owner spender (t.allowance owner spender - amount)])) := by
  simp only [spendAllowance]
  split_ifs with hmax hless
  · simp [hmax, hless]
  · simp [hmax, BitVec.not_lt.mp hless, eq_comm]
  · simp [not_not.mp hmax, eq_comm]

theorem innerBurn_ok {t : WrappedAssetToken} {source : Address} {amount : U256}
    {r : WrappedAssetToken × List TokenEvent} :
    t.innerBurn source amount = .ok r ↔ amount ≤ t.balanceOf source ∧ amount ≤ t.totalSupply ∧
      r = ({ t.setBalance source (t.balanceOf source - amount) with
        totalSupply := t.totalSupply - amount }, [.transfer source zeroAddress amount]) := by
  rw [innerBurn]
  split_ifs with hless
  · simp [BitVec.not_le.mpr hless]
  · have hle := BitVec.not_lt.mp hless
    constructor
    · intro h
      obtain ⟨debited, hdebit, h⟩ := bind_eq_ok.mp h
      obtain ⟨supply, hsupply, h⟩ := bind_eq_ok.mp h
      obtain ⟨-, rfl⟩ := checkedSub_ok.mp hdebit
      obtain ⟨henough, rfl⟩ := checkedSub_ok.mp hsupply
      exact ⟨hle, henough, (Except.ok.inj h).symm⟩
    · rintro ⟨-, henough, rfl⟩
      exact bind_eq_ok.mpr ⟨_, checkedSub_ok.mpr ⟨hle, rfl⟩,
        bind_eq_ok.mpr ⟨_, checkedSub_ok.mpr ⟨henough, rfl⟩, rfl⟩⟩

theorem burnFromByFactory_ok {factory : Address} {t : WrappedAssetToken} {source : Address}
    {amount : U256} {r : WrappedAssetToken × List TokenEvent} :
    t.burnFromByFactory factory factory source amount = .ok r ↔
      ∃ spent approvals, t.spendAllowance source factory amount = .ok (spent, approvals) ∧
        amount ≤ t.balanceOf source ∧ amount ≤ t.totalSupply ∧
        r = ({ spent.setBalance source (t.balanceOf source - amount) with
          totalSupply := t.totalSupply - amount },
          approvals ++ [.transfer source zeroAddress amount]) := by
  rw [burnFromByFactory, if_neg (not_not.mpr rfl)]
  have hkept {spent : WrappedAssetToken} {approvals : List TokenEvent}
      (h : t.spendAllowance source factory amount = .ok (spent, approvals)) :
      spent.balanceOf = t.balanceOf ∧ spent.totalSupply = t.totalSupply := by
    rcases spendAllowance_ok.mp h with ⟨-, heq⟩ | ⟨-, -, heq⟩
    · obtain ⟨rfl, -⟩ := Prod.mk.inj heq
      exact ⟨rfl, rfl⟩
    · obtain ⟨rfl, -⟩ := Prod.mk.inj heq
      exact ⟨rfl, rfl⟩
  constructor
  · intro h
    obtain ⟨⟨spent, approvals⟩, hspend, h⟩ := bind_eq_ok.mp h
    obtain ⟨⟨after, transfers⟩, hburn, h⟩ := bind_eq_ok.mp h
    obtain ⟨hbalance, hsupply⟩ := hkept hspend
    obtain ⟨hle, henough, heq⟩ := innerBurn_ok.mp hburn
    obtain ⟨rfl, rfl⟩ := Prod.mk.inj heq
    rw [hbalance] at hle
    rw [hsupply] at henough
    refine ⟨spent, approvals, hspend, hle, henough, ?_⟩
    rw [← hbalance, ← hsupply]
    exact (Except.ok.inj h).symm
  · rintro ⟨spent, approvals, hspend, hle, henough, rfl⟩
    obtain ⟨hbalance, hsupply⟩ := hkept hspend
    refine bind_eq_ok.mpr ⟨_, hspend, bind_eq_ok.mpr ⟨_, innerBurn_ok.mpr ⟨?_, ?_, rfl⟩, ?_⟩⟩
    · rw [hbalance]
      exact hle
    · rw [hsupply]
      exact henough
    · rw [← hbalance, ← hsupply]
      rfl

end WrappedAssetToken

variable {env : Env}

theorem burn_settled {j j' : Journal} {owner : Address} {intent : UnwrapIntent}
    (hs : SlotsApart env) (h : burnWrappedAsset env j owner intent = .ok j') :
    ∃ spent approval, spendAllowance env j (burnToken env j intent) owner (burnAmount intent) =
        .ok (spent, approval) ∧
      j' = settleBurn env spent (burnToken env j intent) owner (burnAmount intent)
        (tokenBalance env j (burnToken env j intent) owner) (tokenSupply j (burnToken env j intent))
        approval := by
  have hburnable := burnable_of_ok hs h
  rcases spendAllowance_cases env j (burnToken env j intent) owner (burnAmount intent) with
    ⟨-, hspend⟩ | ⟨hmax, hless, -⟩ | ⟨-, -, hspend⟩
  · have hok := burnWrappedAsset_of_spend hburnable.deployed hburnable.balance hspend hburnable.supply
    exact ⟨_, _, hspend, Except.ok.inj (h.symm.trans hok)⟩
  · rcases hburnable.allowance with heq | hle
    · exact absurd heq hmax
    · exact absurd hless (BitVec.not_lt.mpr hle)
  · have hkept := tokenSupply_spent hs j (burnToken env j intent) owner
      (factoryAllowance env j (burnToken env j intent) owner - burnAmount intent)
    have hok := burnWrappedAsset_of_spend hburnable.deployed hburnable.balance hspend
      (hkept.symm ▸ hburnable.supply)
    rw [hkept] at hok
    exact ⟨_, _, hspend, Except.ok.inj (h.symm.trans hok)⟩

theorem settleBurn_logs (env : Env) (j : Journal) (token owner : Address)
    (amount balance totalSupply : U256) (approval : Option U256) :
    (settleBurn env j token owner amount balance totalSupply approval).logs =
        j.logs ++ (approval.toList.map (fun next =>
          tokenLog env token approvalEventSignature owner env.factory next) ++
            [tokenLog env token transferEventSignature owner zeroAddress amount]) ∧
      (settleBurn env j token owner amount balance totalSupply approval).balance = j.balance ∧
      (settleBurn env j token owner amount balance totalSupply approval).transfers =
        j.transfers := by
  cases approval with
  | none => exact ⟨rfl, rfl, rfl⟩
  | some next => exact ⟨List.append_assoc .., rfl, rfl⟩

theorem tokenState_sstore_supply (layout : TokenLayout env) (j : Journal) (token : Address)
    (value : U256) : tokenState env (j.sstore token wrappedTokenTotalSupplySlot value) token =
      { tokenState env j token with totalSupply := value } := by
  ext1
  · exact (sload_sstore ..).trans (if_pos ⟨rfl, rfl⟩)
  · funext x
    exact if_neg (fun h => layout.apart.balance_ne_supply x h.2)
  · funext x y
    exact if_neg (fun h => layout.allowance_ne_supply x y h.2)

theorem tokenState_sstore_balance (layout : TokenLayout env) (j : Journal) (token owner : Address)
    (value : U256) : tokenState env (j.sstore token (balanceSlot env owner) value) token =
      (tokenState env j token).setBalance owner value := by
  ext1
  · exact if_neg (fun h => layout.apart.balance_ne_supply owner h.2.symm)
  · funext x
    refine (sload_sstore ..).trans ?_
    rw [WrappedAssetToken.balanceOf_setBalance]
    by_cases hx : x = owner
    · rw [hx, if_pos ⟨rfl, rfl⟩, if_pos rfl]
    · rw [if_neg (fun h => hx (layout.apart.balance_injective h.2)), if_neg hx]
      rfl
  · funext x y
    exact if_neg (fun h => layout.balance_ne_allowance owner x y h.2.symm)

theorem tokenState_settleBurn (layout : TokenLayout env) (j : Journal) (token owner : Address)
    (amount balance totalSupply : U256) (approval : Option U256) :
    tokenState env (settleBurn env j token owner amount balance totalSupply approval) token =
      { (tokenState env j token).setBalance owner (balance - amount) with
        totalSupply := totalSupply - amount } := by
  rw [← tokenState_sstore_balance layout, ← tokenState_sstore_supply layout]
  cases approval with
  | none => rfl
  | some next => rfl

theorem tokenState_sstore_allowance (layout : TokenLayout env) (j : Journal) (token owner : Address)
    (value : U256) :
    tokenState env (j.sstore token (allowanceSlot env owner env.factory) value) token =
      (tokenState env j token).setAllowance owner env.factory value := by
  ext1
  · exact tokenSupply_spent layout.apart j token owner value
  · funext x
    exact if_neg (fun h => layout.balance_ne_allowance x owner env.factory h.2)
  · funext x y
    refine (sload_sstore ..).trans ?_
    rw [WrappedAssetToken.allowance_setAllowance]
    by_cases hown : x = owner ∧ y = env.factory
    · rw [hown.1, hown.2, if_pos ⟨rfl, rfl⟩, if_pos ⟨rfl, rfl⟩]
    · rw [if_neg (fun h => hown (layout.allowance_own owner x y h.2)), if_neg hown]
      rfl

theorem burn_effect (layout : TokenLayout env) {j j' : Journal} {owner : Address}
    {intent : UnwrapIntent} {after : WrappedAssetToken} {events : List TokenEvent}
    (h : burnWrappedAsset env j owner intent = .ok j')
    (hcontract : WrappedAssetToken.burnFromByFactory env.factory
      (tokenState env j (burnToken env j intent)) env.factory owner (burnAmount intent) =
        .ok (after, events)) :
    tokenState env j' (burnToken env j intent) = after ∧
      j'.logs = j.logs ++ events.map (TokenEvent.entry env (burnToken env j intent)) := by
  obtain ⟨spent, approval, hspend, rfl⟩ := burn_settled layout.apart h
  obtain ⟨mid, approvals, hmid, -, -, heq⟩ := WrappedAssetToken.burnFromByFactory_ok.mp hcontract
  obtain ⟨rfl, rfl⟩ := Prod.mk.inj heq
  rw [tokenState_settleBurn layout, (settleBurn_logs ..).1, List.map_append]
  rcases spendAllowance_cases env j (burnToken env j intent) owner (burnAmount intent) with
    ⟨hmax, hspend'⟩ | ⟨-, -, herror⟩ | ⟨hmax, hle, hspend'⟩
  · obtain ⟨rfl, rfl⟩ := Prod.mk.inj (Except.ok.inj (hspend'.symm.trans hspend))
    rcases WrappedAssetToken.spendAllowance_ok.mp hmid with ⟨-, heq⟩ | ⟨hne, -⟩
    · obtain ⟨rfl, rfl⟩ := Prod.mk.inj heq
      exact ⟨rfl, rfl⟩
    · exact absurd hmax hne
  · exact absurd (herror.symm.trans hspend) (by simp)
  · obtain ⟨rfl, rfl⟩ := Prod.mk.inj (Except.ok.inj (hspend'.symm.trans hspend))
    rcases WrappedAssetToken.spendAllowance_ok.mp hmid with ⟨heq, -⟩ | ⟨-, -, heq⟩
    · exact absurd heq hmax
    · obtain ⟨rfl, rfl⟩ := Prod.mk.inj heq
      rw [tokenState_sstore_allowance layout]
      exact ⟨rfl, rfl⟩

theorem burn_succeeds_iff (layout : TokenLayout env) (j : Journal) (owner : Address)
    (intent : UnwrapIntent) :
    (∃ j', burnWrappedAsset env j owner intent = .ok j') ↔
      burnToken env j intent ≠ zeroAddress ∧ ∃ r, WrappedAssetToken.burnFromByFactory env.factory
        (tokenState env j (burnToken env j intent)) env.factory owner (burnAmount intent) =
          .ok r := by
  constructor
  · rintro ⟨j', h⟩
    obtain ⟨hdeployed, hbalance, hallow, hsupply⟩ := burnable_of_ok layout.apart h
    refine ⟨hdeployed, ?_⟩
    by_cases hmax : factoryAllowance env j (burnToken env j intent) owner = u256Max
    · exact ⟨_, WrappedAssetToken.burnFromByFactory_ok.mpr ⟨_, _,
        WrappedAssetToken.spendAllowance_ok.mpr (Or.inl ⟨hmax, rfl⟩), hbalance, hsupply, rfl⟩⟩
    · have hle := hallow.resolve_left hmax
      exact ⟨_, WrappedAssetToken.burnFromByFactory_ok.mpr ⟨_, _,
        WrappedAssetToken.spendAllowance_ok.mpr (Or.inr ⟨hmax, hle, rfl⟩), hbalance, hsupply, rfl⟩⟩
  · rintro ⟨hdeployed, r, hr⟩
    obtain ⟨mid, approvals, hmid, hbalance, hsupply, -⟩ :=
      WrappedAssetToken.burnFromByFactory_ok.mp hr
    have hallow : factoryAllowance env j (burnToken env j intent) owner = u256Max ∨
        burnAmount intent ≤ factoryAllowance env j (burnToken env j intent) owner := by
      rcases WrappedAssetToken.spendAllowance_ok.mp hmid with ⟨hmax, -⟩ | ⟨-, hle, -⟩
      · exact Or.inl hmax
      · exact Or.inr hle
    obtain ⟨j', hburn, -⟩ := burn_of_burnable layout.apart ⟨hdeployed, hbalance, hallow, hsupply⟩
    exact ⟨j', hburn⟩

theorem burn_frame (layout : TokenLayout env) {j j' : Journal} {owner : Address}
    {intent : UnwrapIntent} (h : burnWrappedAsset env j owner intent = .ok j') :
    j'.balance = j.balance ∧ j'.transfers = j.transfers ∧
      ∀ a s, ¬ (a = burnToken env j intent ∧ (s = wrappedTokenTotalSupplySlot ∨
        s = balanceSlot env owner ∨ s = allowanceSlot env owner env.factory)) →
        j'.sload a s = j.sload a s := by
  obtain ⟨k, hk, hburned⟩ := burn_of_burnable layout.apart (burnable_of_ok layout.apart h)
  obtain rfl := Except.ok.inj (h.symm.trans hk)
  obtain ⟨spent, approval, hspend, heq⟩ := burn_settled layout.apart h
  have hlogs := settleBurn_logs env spent (burnToken env j intent) owner (burnAmount intent)
    (tokenBalance env j (burnToken env j intent) owner) (tokenSupply j (burnToken env j intent)) approval
  rw [← heq] at hlogs
  have hspent : spent.balance = j.balance ∧ spent.transfers = j.transfers := by
    rcases spendAllowance_cases env j (burnToken env j intent) owner (burnAmount intent) with
      ⟨-, hspend'⟩ | ⟨-, -, herror⟩ | ⟨-, -, hspend'⟩
    · obtain ⟨rfl, -⟩ := Prod.mk.inj (Except.ok.inj (hspend'.symm.trans hspend))
      exact ⟨rfl, rfl⟩
    · exact absurd (herror.symm.trans hspend) (by simp)
    · obtain ⟨rfl, -⟩ := Prod.mk.inj (Except.ok.inj (hspend'.symm.trans hspend))
      exact ⟨rfl, rfl⟩
  refine ⟨hlogs.2.1.trans hspent.1, hlogs.2.2.trans hspent.2, ?_⟩
  intro a s hother
  rw [hburned.storage, if_neg (fun hc => hother ⟨hc.1, Or.inl hc.2⟩),
    if_neg (fun hc => hother ⟨hc.1, Or.inr (Or.inl hc.2)⟩),
    if_neg (fun hc => hother ⟨hc.1, Or.inr (Or.inr hc.2.1)⟩)]

theorem burn_agrees (layout : TokenLayout env) (j : Journal) (owner : Address)
    (intent : UnwrapIntent) : BurnAgrees env j owner intent where
  succeeds := burn_succeeds_iff layout j owner intent
  effect := fun _ _ _ h hcontract => burn_effect layout h hcontract
  frame := fun _ h => burn_frame layout h

namespace WrappedAssetToken

theorem backed_deployed : deployed.Backed := total_zero

theorem total_setBalance (t : WrappedAssetToken) (x : Address) (value : U256) :
    total (fun y => ((t.setBalance x value).balanceOf y).toNat) + (t.balanceOf x).toNat =
      total (fun y => (t.balanceOf y).toNat) + value.toNat := by
  have hupdate : (fun y => ((t.setBalance x value).balanceOf y).toNat) =
      Function.update (fun y => (t.balanceOf y).toNat) x value.toNat := by
    funext y
    rw [balanceOf_setBalance, Function.update_apply]
    split_ifs
    · rfl
    · rfl
  rw [hupdate, total_update]

theorem Backed.spendAllowance {t after : WrappedAssetToken} {owner spender : Address} {amount : U256}
    {events : List TokenEvent} (h : t.Backed)
    (hspend : t.spendAllowance owner spender amount = .ok (after, events)) : after.Backed := by
  rcases spendAllowance_ok.mp hspend with ⟨-, heq⟩ | ⟨-, -, heq⟩
  · obtain ⟨rfl, -⟩ := Prod.mk.inj heq
    exact h
  · obtain ⟨rfl, -⟩ := Prod.mk.inj heq
    exact h

theorem Backed.innerTransfer {t after : WrappedAssetToken} {source target : Address} {amount : U256}
    {events : List TokenEvent} (h : t.Backed)
    (hmove : t.innerTransfer source target amount = .ok (after, events)) : after.Backed := by
  rw [WrappedAssetToken.innerTransfer] at hmove
  split_ifs at hmove
  obtain ⟨debited, hdebit, hmove⟩ := bind_eq_ok.mp hmove
  obtain ⟨credited, hcredit, hmove⟩ := bind_eq_ok.mp hmove
  obtain ⟨hle, rfl⟩ := checkedSub_ok.mp hdebit
  obtain ⟨hfits, rfl⟩ := checkedAdd_ok.mp hcredit
  obtain ⟨rfl, -⟩ := Prod.mk.inj (Except.ok.inj hmove)
  have hdebited := total_setBalance t source (t.balanceOf source - amount)
  have hcredited := total_setBalance (t.setBalance source (t.balanceOf source - amount)) target
    ((t.setBalance source (t.balanceOf source - amount)).balanceOf target + amount)
  rw [BitVec.toNat_sub_of_le hle] at hdebited
  rw [BitVec.toNat_add_of_lt hfits] at hcredited
  have hle' : amount.toNat ≤ (t.balanceOf source).toNat := hle
  have hbacked : total (fun x => (t.balanceOf x).toNat) = t.totalSupply.toNat := h
  change total _ = t.totalSupply.toNat
  omega

theorem Backed.mint {factory : Address} {t after : WrappedAssetToken} {msgSender target : Address}
    {amount : U256} {events : List TokenEvent} (h : t.Backed)
    (hmint : t.mint factory msgSender target amount = .ok (after, events)) : after.Backed := by
  rw [WrappedAssetToken.mint] at hmint
  split_ifs at hmint
  obtain ⟨supply, hsupply, hmint⟩ := bind_eq_ok.mp hmint
  obtain ⟨credited, hcredit, hmint⟩ := bind_eq_ok.mp hmint
  obtain ⟨hfits, rfl⟩ := checkedAdd_ok.mp hsupply
  obtain ⟨hroom, rfl⟩ := checkedAdd_ok.mp hcredit
  obtain ⟨rfl, -⟩ := Prod.mk.inj (Except.ok.inj hmint)
  have hcredited := total_setBalance t target (t.balanceOf target + amount)
  rw [BitVec.toNat_add_of_lt hroom] at hcredited
  have hbacked : total (fun x => (t.balanceOf x).toNat) = t.totalSupply.toNat := h
  change total (fun y => ((t.setBalance target _).balanceOf y).toNat) = (t.totalSupply + amount).toNat
  rw [BitVec.toNat_add_of_lt hfits]
  omega

theorem Backed.innerBurn {t after : WrappedAssetToken} {source : Address} {amount : U256}
    {events : List TokenEvent} (h : t.Backed)
    (hburn : t.innerBurn source amount = .ok (after, events)) : after.Backed := by
  obtain ⟨hle, henough, heq⟩ := innerBurn_ok.mp hburn
  obtain ⟨rfl, -⟩ := Prod.mk.inj heq
  have hdebited := total_setBalance t source (t.balanceOf source - amount)
  rw [BitVec.toNat_sub_of_le hle] at hdebited
  have hle' : amount.toNat ≤ (t.balanceOf source).toNat := hle
  have henough' : amount.toNat ≤ t.totalSupply.toNat := henough
  have hbacked : total (fun x => (t.balanceOf x).toNat) = t.totalSupply.toNat := h
  change total (fun y => ((t.setBalance source _).balanceOf y).toNat) = (t.totalSupply - amount).toNat
  rw [BitVec.toNat_sub_of_le henough]
  omega

theorem Backed.burnFromByFactory {factory msgSender source : Address} {t after : WrappedAssetToken}
    {amount : U256} {events : List TokenEvent} (h : t.Backed)
    (hburn : t.burnFromByFactory factory msgSender source amount = .ok (after, events)) :
    after.Backed := by
  rw [WrappedAssetToken.burnFromByFactory] at hburn
  split_ifs at hburn
  obtain ⟨⟨spent, approvals⟩, hspend, hburn⟩ := bind_eq_ok.mp hburn
  obtain ⟨⟨burned, transfers⟩, hinner, hburn⟩ := bind_eq_ok.mp hburn
  obtain ⟨rfl, -⟩ := Prod.mk.inj (Except.ok.inj hburn)
  exact (h.spendAllowance hspend).innerBurn hinner

theorem Backed.call {factory : Address} {t after : WrappedAssetToken} {events : List TokenEvent}
    (h : t.Backed) {call : TokenCall} (hrun : call.run factory t = .ok (after, events)) :
    after.Backed := by
  cases call with
  | transfer msgSender target amount => exact h.innerTransfer hrun
  | approve msgSender spender amount =>
      obtain ⟨rfl, -⟩ := Prod.mk.inj (Except.ok.inj hrun)
      exact h
  | transferFrom msgSender source target amount =>
      obtain ⟨⟨spent, approvals⟩, hspend, hrun⟩ := bind_eq_ok.mp hrun
      obtain ⟨⟨moved, transfers⟩, hmove, hrun⟩ := bind_eq_ok.mp hrun
      obtain ⟨rfl, -⟩ := Prod.mk.inj (Except.ok.inj hrun)
      exact (h.spendAllowance hspend).innerTransfer hmove
  | mint msgSender target amount => exact h.mint hrun
  | burnFromByFactory msgSender source amount => exact h.burnFromByFactory hrun

end WrappedAssetToken

theorem tokenState_congr {j j' : Journal} {token : Address}
    (h : ∀ s, j'.sload token s = j.sload token s) : tokenState env j' token = tokenState env j token := by
  ext1
  · exact h _
  · funext x
    exact h _
  · funext x y
    exact h _

theorem backed_burn (layout : TokenLayout env) {j j' : Journal} {owner token : Address}
    {intent : UnwrapIntent} (hbacked : (tokenState env j token).Backed)
    (h : burnWrappedAsset env j owner intent = .ok j') : (tokenState env j' token).Backed := by
  by_cases htoken : token = burnToken env j intent
  · obtain ⟨-, ⟨after, events⟩, hcontract⟩ := (burn_succeeds_iff layout j owner intent).mp ⟨j', h⟩
    rw [htoken] at hbacked ⊢
    rw [(burn_effect layout h hcontract).1]
    exact hbacked.burnFromByFactory hcontract
  · rw [tokenState_congr (fun s => (burn_frame layout h).2.2 token s (fun hc => htoken hc.1))]
    exact hbacked

theorem backed_run (layout : TokenLayout env) {token : Address} {j₀ j : Journal}
    (hstart : tokenState env j₀ token = .deployed) (run : TokenRun env token j₀ j) :
    (tokenState env j token).Backed := by
  induction run with
  | start =>
      rw [hstart]
      exact WrappedAssetToken.backed_deployed
  | call run call returns stored ih =>
      rw [stored]
      exact ih.call returns
  | burn run owner intent burns ih => exact backed_burn layout ih burns
  | elsewhere run same ih =>
      rw [tokenState_congr same]
      exact ih

theorem native_burn_agrees_with_contract (env : Env) (layout : TokenLayout env) :
    (∀ (j : Journal) (owner : Address) (intent : UnwrapIntent), BurnAgrees env j owner intent) ∧
      ∀ (token : Address) (j₀ j : Journal), tokenState env j₀ token = .deployed →
        TokenRun env token j₀ j → (tokenState env j token).Backed :=
  ⟨fun j owner intent => burn_agrees layout j owner intent,
    fun _ _ _ hstart run => backed_run layout hstart run⟩

def factoryWord : Nat := 0x0303030303030303030303030303030303030303

-- keccak on what the sample hashes, and slots kept apart by their top byte elsewhere
def tokenSlotHash (key slot : Nat) : Nat :=
  if slot = 3 then if key = userWord then userBalanceSlot else 2 ^ 248 + key % 2 ^ 248
  else if slot = 4 then if key = userWord then userAllowanceOuterSlot else 2 * 2 ^ 248 + key % 2 ^ 248
  else if slot = 0 then assetTokenSlot
  else if key = factoryWord then
    if slot = userAllowanceOuterSlot then userAllowanceSlot else 3 * 2 ^ 248 + slot % 2 ^ 248
  else 4 * 2 ^ 248 + key % 2 ^ 248

def tokenHash (input : Bytes) : Nat :=
  if input.length = 64 then tokenSlotHash (decode (input.take 32)) (decode (input.drop 32))
  else sampleHash input

def tokenEnv : Env where
  keccak256 := fun input => amountBytes (BitVec.ofNat 256 (tokenHash input))
  factory := unwrapFactory
  access := ⟨true, false, true⟩
  otherPrecompile := fun _ _ => none

theorem mappingSlot_tokenEnv (key : ByteArr 32) (slot : U256) :
    mappingSlot tokenEnv key slot =
      BitVec.ofNat 256 (tokenSlotHash (decode key.toList) slot.toNat) := by
  have hslot : decode (u256Bytes slot) = slot.toNat := decode_encode_of_lt slot.isLt
  have hlen : (key.toList ++ u256Bytes slot).length = 64 := by
    rw [List.length_append, key.toList_length, u256Bytes, length_encode]
  have htake : (key.toList ++ u256Bytes slot).take 32 = key.toList :=
    List.take_left' key.toList_length
  have hdrop : (key.toList ++ u256Bytes slot).drop 32 = u256Bytes slot :=
    List.drop_left' key.toList_length
  simp only [mappingSlot, tokenEnv, u256OfBytes_amountBytes, tokenHash, hlen, if_true, htake,
    hdrop, hslot]

theorem tokenSlotHash_lt (key slot : Nat) : tokenSlotHash key slot < 2 ^ 256 := by
  have hbalance : userBalanceSlot < 2 ^ 256 := by decide
  have houter : userAllowanceOuterSlot < 2 ^ 256 := by decide
  have hasset : assetTokenSlot < 2 ^ 256 := by decide
  have hallowance : userAllowanceSlot < 2 ^ 256 := by decide
  rw [tokenSlotHash]
  split_ifs <;> omega

theorem toNat_mappingSlot_tokenEnv (key : ByteArr 32) (slot : U256) :
    (mappingSlot tokenEnv key slot).toNat = tokenSlotHash (decode key.toList) slot.toNat := by
  rw [mappingSlot_tokenEnv, BitVec.toNat_ofNat, Nat.mod_eq_of_lt (tokenSlotHash_lt ..)]

theorem balanceSlot_tokenEnv (x : Address) : (balanceSlot tokenEnv x).toNat =
    if addressNumber x = userWord then userBalanceSlot else 2 ^ 248 + addressNumber x := by
  have hlt := addressNumber_lt x
  rw [balanceSlot, addressMappingSlot, toNat_mappingSlot_tokenEnv, decode_addressWord]
  have hmod : addressNumber x % 2 ^ 248 = addressNumber x := Nat.mod_eq_of_lt (by omega)
  change (if addressNumber x = userWord then userBalanceSlot
    else 2 ^ 248 + addressNumber x % 2 ^ 248) = _
  rw [hmod]

theorem allowanceSlot_tokenEnv (x y : Address) : (allowanceSlot tokenEnv x y).toNat =
    if addressNumber y = factoryWord then
      if addressNumber x = userWord then userAllowanceSlot else 3 * 2 ^ 248 + addressNumber x
    else 4 * 2 ^ 248 + addressNumber y := by
  have hx := addressNumber_lt x
  have hy := addressNumber_lt y
  have houter : (addressMappingSlot tokenEnv x wrappedTokenAllowanceSlot).toNat =
      if addressNumber x = userWord then userAllowanceOuterSlot
      else 2 * 2 ^ 248 + addressNumber x := by
    have hmod : addressNumber x % 2 ^ 248 = addressNumber x := Nat.mod_eq_of_lt (by omega)
    rw [addressMappingSlot, toNat_mappingSlot_tokenEnv, decode_addressWord]
    change (if addressNumber x = userWord then userAllowanceOuterSlot
      else 2 * 2 ^ 248 + addressNumber x % 2 ^ 248) = _
    rw [hmod]
  have hmod : addressNumber y % 2 ^ 248 = addressNumber y := Nat.mod_eq_of_lt (by omega)
  rw [allowanceSlot, toNat_mappingSlot_tokenEnv, decode_addressWord, houter, tokenSlotHash]
  by_cases huser : addressNumber x = userWord
  · rw [if_pos huser, if_pos huser, if_neg (by decide), if_neg (by decide), if_neg (by decide),
      if_pos rfl, hmod]
  · have hne : 2 * 2 ^ 248 + addressNumber x ≠ userAllowanceOuterSlot := by
      simp only [userAllowanceOuterSlot]
      omega
    have hsum : (2 * 2 ^ 248 + addressNumber x) % 2 ^ 248 = addressNumber x := by omega
    rw [if_neg huser, if_neg huser, if_neg (by omega), if_neg (by omega), if_neg (by omega),
      if_neg hne, hmod, hsum]

theorem toNat_ne {a b : U256} (h : a.toNat ≠ b.toNat) : a ≠ b := fun heq => h (congrArg _ heq)

theorem tokenLayout_tokenEnv : TokenLayout tokenEnv := by
  have hnumber {x y : Address} (h : addressNumber x = addressNumber y) : x = y := decode_injective h
  have hfactory : addressNumber unwrapFactory = factoryWord := by decide +kernel
  have hsupply : wrappedTokenTotalSupplySlot.toNat = 2 := rfl
  have hlt (x : Address) : addressNumber x < 2 ^ 160 := addressNumber_lt x
  have hbalance : Function.Injective (balanceSlot tokenEnv) := by
    intro x y h
    have hx := hlt x
    have hy := hlt y
    have hnat := congrArg BitVec.toNat h
    rw [balanceSlot_tokenEnv, balanceSlot_tokenEnv] at hnat
    apply hnumber
    simp only [userBalanceSlot] at hnat
    split_ifs at hnat <;> omega
  have hown (owner x y : Address)
      (h : allowanceSlot tokenEnv x y = allowanceSlot tokenEnv owner unwrapFactory) :
      x = owner ∧ y = unwrapFactory := by
    have hx := hlt x
    have hy := hlt y
    have ho := hlt owner
    have hnat := congrArg BitVec.toNat h
    rw [allowanceSlot_tokenEnv, allowanceSlot_tokenEnv, hfactory, if_pos rfl] at hnat
    simp only [userAllowanceSlot] at hnat
    have hspender : addressNumber y = factoryWord := by
      by_contra hne
      rw [if_neg hne] at hnat
      split_ifs at hnat <;> omega
    rw [if_pos hspender] at hnat
    refine ⟨hnumber ?_, hnumber (hspender.trans hfactory.symm)⟩
    split_ifs at hnat <;> omega
  have hcross (x y z : Address) : balanceSlot tokenEnv x ≠ allowanceSlot tokenEnv y z := by
    have hx := hlt x
    have hy := hlt y
    have hz := hlt z
    apply toNat_ne
    rw [balanceSlot_tokenEnv, allowanceSlot_tokenEnv]
    simp only [userBalanceSlot, userAllowanceSlot]
    split_ifs <;> omega
  have hallowance (x y : Address) : allowanceSlot tokenEnv x y ≠ wrappedTokenTotalSupplySlot := by
    have hx := hlt x
    have hy := hlt y
    apply toNat_ne
    rw [allowanceSlot_tokenEnv, hsupply]
    simp only [userAllowanceSlot]
    split_ifs <;> omega
  have hheld (x : Address) : balanceSlot tokenEnv x ≠ wrappedTokenTotalSupplySlot := by
    have hx := hlt x
    apply toNat_ne
    rw [balanceSlot_tokenEnv, hsupply]
    simp only [userBalanceSlot]
    split_ifs <;> omega
  exact ⟨⟨hbalance, fun x y h => (hown y x _ h).1, fun x y => hcross x y _, hheld,
    fun x => hallowance x _⟩, hown, hcross, hallowance⟩

def deployedStorage (account : Address) (slot : U256) : U256 :=
  if account = unwrapFactory ∧ slot = BitVec.ofNat 256 assetTokenSlot then
    u256OfBytes unwrapToken.toList
  else 0

def deployedJournal : Journal := ⟨fun _ => 0, deployedStorage, [], []⟩

def mintedJournal : Journal :=
  (deployedJournal.sstore unwrapToken wrappedTokenTotalSupplySlot 100).sstore unwrapToken
    (balanceSlot tokenEnv unwrapUser) 100

def approvedJournal : Journal :=
  mintedJournal.sstore unwrapToken (allowanceSlot tokenEnv unwrapUser unwrapFactory) 100

theorem tokenState_deployedJournal : tokenState tokenEnv deployedJournal unwrapToken = .deployed := by
  have hother : unwrapToken ≠ unwrapFactory := by decide
  have hzero (s : U256) : deployedStorage unwrapToken s = 0 := if_neg (fun h => hother h.1)
  ext1
  · exact hzero wrappedTokenTotalSupplySlot
  · funext x
    exact hzero (balanceSlot tokenEnv x)
  · funext x y
    exact hzero (allowanceSlot tokenEnv x y)

def mintedToken : WrappedAssetToken :=
  { WrappedAssetToken.deployed with totalSupply := 100 }.setBalance unwrapUser 100

theorem tokenState_mintedJournal : tokenState tokenEnv mintedJournal unwrapToken = mintedToken := by
  rw [mintedJournal, tokenState_sstore_balance tokenLayout_tokenEnv,
    tokenState_sstore_supply tokenLayout_tokenEnv, tokenState_deployedJournal]
  rfl

theorem run_approvedJournal : TokenRun tokenEnv unwrapToken deployedJournal approvedJournal := by
  have hmint : TokenCall.run unwrapFactory (tokenState tokenEnv deployedJournal unwrapToken)
      (.mint unwrapFactory unwrapUser 100) =
        .ok (mintedToken, [.transfer zeroAddress unwrapUser 100]) := by
    rw [tokenState_deployedJournal]
    rfl
  have hminted : TokenRun tokenEnv unwrapToken deployedJournal mintedJournal :=
    TokenRun.start.call (.mint unwrapFactory unwrapUser 100) hmint tokenState_mintedJournal
  have happrove : TokenCall.run unwrapFactory (tokenState tokenEnv mintedJournal unwrapToken)
      (.approve unwrapUser unwrapFactory 100) =
        .ok ((tokenState tokenEnv mintedJournal unwrapToken).setAllowance unwrapUser unwrapFactory 100,
          [.approval unwrapUser unwrapFactory 100]) := rfl
  exact hminted.call (.approve unwrapUser unwrapFactory 100) happrove
    (tokenState_sstore_allowance tokenLayout_tokenEnv ..)

theorem approved_burn_keeps_backing :
    ∃ j', burnWrappedAsset tokenEnv approvedJournal unwrapUser unwrapIntent = .ok j' ∧
      BurnAgrees tokenEnv approvedJournal unwrapUser unwrapIntent ∧
      (tokenState tokenEnv j' unwrapToken).Backed := by
  obtain ⟨hagrees, hruns⟩ := native_burn_agrees_with_contract tokenEnv tokenLayout_tokenEnv
  have hburnable : Burnable tokenEnv approvedJournal unwrapUser unwrapIntent :=
    ⟨by decide +kernel, by decide +kernel, by decide +kernel, by decide +kernel⟩
  obtain ⟨j', hburn, -⟩ := burn_of_burnable tokenLayout_tokenEnv.apart hburnable
  exact ⟨j', hburn, hagrees approvedJournal unwrapUser unwrapIntent,
    hruns unwrapToken deployedJournal j' tokenState_deployedJournal
      (run_approvedJournal.burn unwrapUser unwrapIntent hburn)⟩

end Kasane.Precompile
