import Kasane.Precompile.Run

namespace Kasane.Precompile

open BigEndian Receipt

inductive CallScheme where
  | call
  | callCode
  | delegateCall
  | staticCall
deriving DecidableEq, Repr

structure Frame where
  self : Address
  caller : Address
  value : U256
  isStatic : Bool

def topFrame (sender : Address) : Frame := ⟨sender, sender, 0, false⟩

structure CallRequest where
  scheme : CallScheme
  codeAddress : Address
  value : U256
  input : Bytes
  gasLimit : Nat

def CallRequest.inputs (req : CallRequest) (frame : Frame) : CallInputs where
  input := req.input
  gasLimit := req.gasLimit
  bytecodeAddress := req.codeAddress
  targetAddress := match req.scheme with
    | .call | .staticCall => req.codeAddress
    | .callCode | .delegateCall => frame.self
  caller := match req.scheme with
    | .call | .callCode | .staticCall => frame.self
    | .delegateCall => frame.caller
  value := match req.scheme with
    | .call | .callCode => .transfer req.value
    | .delegateCall => .apparent frame.value
    | .staticCall => .transfer 0
  isStatic := match req.scheme with
    | .staticCall => true
    | .call | .callCode | .delegateCall => frame.isStatic

def CallInputs.frame (inputs : CallInputs) : Frame :=
  ⟨inputs.targetAddress, inputs.caller, inputs.callValue, inputs.isStatic⟩

def Journal.move (j : Journal) (source target : Address) (value : U256) : Address → Nat := fun a =>
  if source = target then j.balance a
  else if a = source then j.balance a - value.toNat
  else if a = target then j.balance a + value.toNat
  else j.balance a

def Journal.transfer (j : Journal) (source target : Address) (value : U256) : Option Journal :=
  if j.balance source < value.toNat then none
  else if source ≠ target ∧ j.balance target + value.toNat ≥ 2 ^ 256 then none
  else some { j with
    balance := j.move source target value
    transfers := j.transfers ++ [⟨source, target, value⟩] }

def CallInputs.moveValue (inputs : CallInputs) (j : Journal) : Option Journal :=
  match inputs.value with
  | .transfer value => j.transfer inputs.caller inputs.targetAddress value
  | .apparent _ => some j

def CallRequest.forbidden (req : CallRequest) (frame : Frame) : Bool :=
  frame.isStatic && decide (req.scheme = .call) && decide (req.value ≠ 0)

def callPrecompile (env : Env) (elapsed : Nat) (j : Journal) (frame : Frame) (req : CallRequest) :
    Option Journal :=
  if req.forbidden frame then none
  else do
    let funded ← (req.inputs frame).moveValue j
    let (out, ctx) ← providerRun env elapsed ⟨funded, none⟩ (req.inputs frame)
    if out.result = .return_ then some ctx.journal else none

inductive Event where
  | transaction (sender : Address)
  | enter (req : CallRequest)
  | create (address : Address) (value : U256)
  | leave (ok : Bool)
  | precompile (req : CallRequest) (elapsed : Nat)
  | emitLog (topics : List (ByteArr 32)) (data : Bytes)
  | store (slot value : U256)

structure Machine where
  sender : Address
  journal : Journal
  stack : List (Frame × Journal)

def reservedAddresses : List Address :=
  [wrapPrecompileAddress, nativeWithdrawPrecompileAddress, icpQueryPrecompileAddress,
    icpUpdateIntentPrecompileAddress]

def intentPrecompiles : List Address := [wrapPrecompileAddress, nativeWithdrawPrecompileAddress]

namespace Machine

def frame (m : Machine) : Frame :=
  match m.stack with
  | [] => topFrame m.sender
  | (frame, _) :: _ => frame

def issues (m : Machine) (req : CallRequest) : Prop := m.stack = [] → req.scheme = .call

instance (m : Machine) (req : CallRequest) : Decidable (m.issues req) :=
  inferInstanceAs (Decidable (_ → _))

def push (m : Machine) (frame : Frame) (funded : Journal) : Machine :=
  { m with journal := funded, stack := (frame, m.journal) :: m.stack }

def step (env : Env) (m : Machine) : Event → Machine
  | .transaction sender => if m.stack = [] then { m with sender } else m
  | .enter req =>
      if ¬ m.issues req ∨ req.codeAddress ∈ reservedAddresses ∨ req.forbidden m.frame then m
      else
        match (req.inputs m.frame).moveValue m.journal with
        | none => m
        | some funded => m.push (req.inputs m.frame).frame funded
  | .create address value =>
      if address ∈ reservedAddresses ∨ m.frame.isStatic then m
      else
        match m.journal.transfer m.frame.self address value with
        | none => m
        | some funded => m.push ⟨address, m.frame.self, value, false⟩ funded
  | .leave ok =>
      match m.stack with
      | [] => m
      | (_, checkpoint) :: rest =>
          { m with journal := if ok then m.journal else checkpoint, stack := rest }
  | .precompile req elapsed =>
      if ¬ m.issues req ∨ req.codeAddress ∉ intentPrecompiles then m
      else
        match callPrecompile env elapsed m.journal m.frame req with
        | none => m
        | some journal => { m with journal }
  | .emitLog topics data =>
      if m.stack = [] ∨ m.frame.isStatic then m
      else { m with journal := m.journal.log ⟨m.frame.self, topics, data⟩ }
  | .store slot value =>
      if m.stack = [] ∨ m.frame.isStatic then m
      else { m with journal := m.journal.sstore m.frame.self slot value }

def run (env : Env) (m : Machine) (events : List Event) : Machine := events.foldl (step env) m

def Along (env : Env) (P : Machine → Event → Prop) (m : Machine) : List Event → Prop
  | [] => True
  | event :: rest => P m event ∧ (m.step env event).Along env P rest

theorem along_split {env : Env} {P : Machine → Event → Prop} {m : Machine} {before : List Event}
    {event : Event} {after : List Event} (h : m.Along env P (before ++ event :: after)) :
    P (m.run env before) event := by
  induction before generalizing m with
  | nil => exact h.1
  | cons first rest ih => exact ih h.2

end Machine

structure CallRequest.Reaches (req : CallRequest) (frame : Frame) (j funded : Journal) : Prop where
  permitted : req.forbidden frame = false
  funded : (req.inputs frame).moveValue j = some funded

theorem callPrecompile_of_not_reaches {env : Env} {elapsed : Nat} {j : Journal} {frame : Frame}
    {req : CallRequest} (h : ∀ funded, ¬ req.Reaches frame j funded) :
    callPrecompile env elapsed j frame req = none := by
  rw [callPrecompile]
  split_ifs with hforb
  · rfl
  · cases hmove : (req.inputs frame).moveValue j with
    | none => rfl
    | some funded => exact absurd ⟨by simpa using hforb, hmove⟩ (h funded)

theorem callPrecompile_eq_some {env : Env} {elapsed : Nat} {j j' : Journal} {frame : Frame}
    {req : CallRequest} (h : callPrecompile env elapsed j frame req = some j') :
    ∃ funded out ctx, req.Reaches frame j funded ∧
      providerRun env elapsed ⟨funded, none⟩ (req.inputs frame) = some (out, ctx) ∧
      out.result = .return_ ∧ j' = ctx.journal := by
  by_cases hreach : ∃ funded, req.Reaches frame j funded
  · obtain ⟨funded, hreach⟩ := hreach
    simp only [callPrecompile, hreach.permitted, Bool.false_eq_true, if_false, hreach.funded,
      Option.bind_eq_bind, Option.bind_some] at h
    obtain ⟨⟨out, ctx⟩, hrun, hret⟩ := Option.bind_eq_some_iff.mp h
    dsimp only at hret
    split_ifs at hret with hres
    exact ⟨funded, out, ctx, hreach, hrun, hres, (Option.some.inj hret).symm⟩
  · rw [callPrecompile_of_not_reaches (fun funded hf => hreach ⟨funded, hf⟩)] at h
    exact absurd h (by simp)

theorem transfer_eq_some {j funded : Journal} {source target : Address} {value : U256}
    (h : j.transfer source target value = some funded) :
    funded.logs = j.logs ∧ funded.storage = j.storage ∧
      funded.transfers = j.transfers ++ [⟨source, target, value⟩] := by
  rw [Journal.transfer] at h
  split_ifs at h with hpoor hover
  obtain rfl := Option.some.inj h
  exact ⟨rfl, rfl, rfl⟩

theorem moveValue_keeps {inputs : CallInputs} {j funded : Journal}
    (h : inputs.moveValue j = some funded) :
    funded.logs = j.logs ∧ funded.storage = j.storage ∧
      (funded.transfers = j.transfers ∨
        ∃ t, funded.transfers = j.transfers ++ [t]) := by
  rw [CallInputs.moveValue] at h
  split at h
  · obtain ⟨hlogs, hstorage, htransfers⟩ := transfer_eq_some h
    exact ⟨hlogs, hstorage, Or.inr ⟨_, htransfers⟩⟩
  · obtain rfl := Option.some.inj h
    exact ⟨rfl, rfl, Or.inl rfl⟩

end Kasane.Precompile
