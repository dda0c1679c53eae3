import Mathlib.Data.List.Basic
import Mathlib.Logic.Function.Basic
import Mathlib.Tactic.SplitIfs

namespace DedupLedger

structure Transfer (A : Type) where
  source : A
  dest : A
  amount : Nat
  fee : Option Nat
  memo : List UInt8
  createdAtTime : Nat
deriving DecidableEq

structure Ledger (A : Type) where
  fee : Nat
  balance : Nat
  now : Nat
  executed : List (Transfer A)

inductive Outcome where
  | moved (index fee : Nat)
  | duplicate (index : Nat)
  | refused (code : String)

def Outcome.isMoved : Outcome → Bool
  | .moved _ _ => true
  | _ => false

structure Call (K A O : Type) where
  ledger : K
  transfer : Transfer A
  origin : O
  outcome : Option Outcome

section

variable {A : Type} [DecidableEq A]

def Ledger.tooOld (l : Ledger A) (window : Nat) (x : Transfer A) : Bool :=
  decide (x.createdAtTime + window < l.now)

def Ledger.find (l : Ledger A) (x : Transfer A) : Option Nat :=
  l.executed.findIdx? (fun y => decide (y = x))

def Ledger.append (l : Ledger A) (balance : Nat) (x : Transfer A) : Outcome × Ledger A :=
  (.moved l.executed.length l.fee, { l with balance := balance, executed := l.executed ++ [x] })

def Ledger.move (custodian : A) (l : Ledger A) (x : Transfer A) : Outcome × Ledger A :=
  let received := if x.dest = custodian then x.amount else 0
  if x.source = custodian then
    if x.amount + l.fee ≤ l.balance then l.append (l.balance - (x.amount + l.fee) + received) x
    else (.refused "insufficient_funds", l)
  else l.append (l.balance + received) x

def Ledger.post (custodian : A) (window : Nat) (refusal : Option String) (l : Ledger A)
    (x : Transfer A) : Outcome × Ledger A :=
  match refusal with
  | some code => (.refused code, l)
  | none =>
      if l.tooOld window x then (.refused "too_old", l)
      else
        match l.find x with
        | some index => (.duplicate index, l)
        | none => l.move custodian x

theorem Ledger.not_mem_of_find {l : Ledger A} {x : Transfer A} (h : l.find x = none) :
    x ∉ l.executed := by
  intro hx
  have hfalse := List.findIdx?_eq_none_iff.mp h x hx
  simp at hfalse

structure Ledger.Moves (custodian : A) (l l' : Ledger A) (x : Transfer A) : Prop where
  executed : l'.executed = l.executed ++ [x]
  paid : x.source = custodian → l.balance ≤ l'.balance + (x.amount + l.fee)
  kept : x.source ≠ custodian → l.balance ≤ l'.balance
  received : x.source ≠ custodian → x.dest = custodian → l'.balance = l.balance + x.amount

theorem Ledger.move_cases {custodian : A} {l l' : Ledger A} {x : Transfer A} {outcome : Outcome}
    (h : l.move custodian x = (outcome, l')) :
    (l' = l ∧ outcome.isMoved = false) ∨
      (outcome = .moved l.executed.length l.fee ∧ l.Moves custodian l' x) := by
  rw [Ledger.move] at h
  by_cases hsource : x.source = custodian
  · rw [if_pos hsource] at h
    by_cases hfunds : x.amount + l.fee ≤ l.balance
    · rw [if_pos hfunds] at h
      obtain ⟨rfl, rfl⟩ := Prod.mk.inj h
      refine Or.inr ⟨rfl, rfl, ?_, fun hne => absurd hsource hne, fun hne => absurd hsource hne⟩
      intro _
      dsimp only
      omega
    · rw [if_neg hfunds] at h
      obtain ⟨rfl, rfl⟩ := Prod.mk.inj h
      exact Or.inl ⟨rfl, rfl⟩
  · rw [if_neg hsource] at h
    obtain ⟨rfl, rfl⟩ := Prod.mk.inj h
    refine Or.inr ⟨rfl, rfl, fun heq => absurd heq hsource, fun _ => Nat.le_add_right _ _, ?_⟩
    intro _ hdest
    dsimp only
    rw [if_pos hdest]

theorem Ledger.post_cases {custodian : A} {window : Nat} {refusal : Option String} {l l' : Ledger A}
    {x : Transfer A} {outcome : Outcome} (h : l.post custodian window refusal x = (outcome, l')) :
    (l' = l ∧ outcome.isMoved = false) ∨
      (x ∉ l.executed ∧ outcome = .moved l.executed.length l.fee ∧ l.Moves custodian l' x) := by
  cases refusal with
  | some code =>
      obtain ⟨rfl, rfl⟩ := Prod.mk.inj h
      exact Or.inl ⟨rfl, rfl⟩
  | none =>
      rw [Ledger.post.eq_2] at h
      by_cases hold : l.tooOld window x = true
      · rw [if_pos hold] at h
        obtain ⟨rfl, rfl⟩ := Prod.mk.inj h
        exact Or.inl ⟨rfl, rfl⟩
      · rw [if_neg hold] at h
        cases hfind : l.find x with
        | some index =>
            rw [hfind] at h
            obtain ⟨rfl, rfl⟩ := Prod.mk.inj h
            exact Or.inl ⟨rfl, rfl⟩
        | none =>
            rw [hfind] at h
            rcases Ledger.move_cases h with hsame | hmoved
            · exact Or.inl hsame
            · exact Or.inr ⟨Ledger.not_mem_of_find hfind, hmoved⟩

end

section

variable {K A O : Type} [DecidableEq K] [DecidableEq A]

def Call.moved (call : Call K A O) : Bool := (call.outcome.map Outcome.isMoved).getD false

def Call.mayMove (call : Call K A O) : Bool := (call.outcome.map Outcome.isMoved).getD true

def Call.answered (call : Call K A O) (outcome : Outcome) : Call K A O :=
  { call with outcome := some outcome }

def execute (custodian : A) (window : Nat) (refusal : Option String) (ledgers : K → Ledger A)
    (calls : List (Call K A O)) (i : Nat) : Option ((K → Ledger A) × List (Call K A O)) :=
  match calls[i]? with
  | none => none
  | some call =>
      if call.outcome.isSome then none
      else
        let r := (ledgers call.ledger).post custodian window refusal call.transfer
        some (Function.update ledgers call.ledger r.2, calls.set i (call.answered r.1))

structure Executes (custodian : A) (ledgers ledgers' : K → Ledger A)
    (calls calls' : List (Call K A O)) (i : Nat) (call : Call K A O) (outcome : Outcome)
    (l : Ledger A) : Prop where
  called : calls[i]? = some call
  unanswered : call.outcome = none
  answered : calls' = calls.set i (call.answered outcome)
  updated : ledgers' = Function.update ledgers call.ledger l
  effect : (l = ledgers call.ledger ∧ outcome.isMoved = false) ∨
    (call.transfer ∉ (ledgers call.ledger).executed ∧
      outcome = .moved (ledgers call.ledger).executed.length (ledgers call.ledger).fee ∧
        (ledgers call.ledger).Moves custodian l call.transfer)

theorem execute_some {custodian : A} {window : Nat} {refusal : Option String}
    {ledgers ledgers' : K → Ledger A} {calls calls' : List (Call K A O)} {i : Nat}
    (h : execute custodian window refusal ledgers calls i = some (ledgers', calls')) :
    ∃ call outcome l, Executes custodian ledgers ledgers' calls calls' i call outcome l := by
  rw [execute] at h
  cases hcall : calls[i]? with
  | none =>
      rw [hcall] at h
      exact absurd h (by simp)
  | some call =>
      rw [hcall] at h
      dsimp only at h
      split_ifs at h with hdone
      obtain ⟨rfl, rfl⟩ := Prod.mk.inj (Option.some.inj h)
      exact ⟨call, _, _, hcall, by simpa using hdone, rfl, rfl, Ledger.post_cases rfl⟩

end

section

variable {K A O : Type}

theorem Call.mayMove_of_moved {call : Call K A O} (h : call.moved = true) :
    call.mayMove = true := by
  rw [Call.moved] at h
  rw [Call.mayMove]
  cases houtcome : call.outcome with
  | none => rfl
  | some outcome =>
      rw [houtcome] at h
      exact h

structure Call.Prior (new old : Call K A O) : Prop where
  ledger : new.ledger = old.ledger
  transfer : new.transfer = old.transfer
  origin : new.origin = old.origin
  mayMove : new.mayMove = true → old.mayMove = true

theorem Call.Prior.refl (call : Call K A O) : call.Prior call := ⟨rfl, rfl, rfl, id⟩

structure Deduped (ledgers : K → Ledger A) (calls : List (Call K A O)) : Prop where
  logged : ∀ (i : Nat) call, calls[i]? = some call → call.moved = true →
    call.transfer ∈ (ledgers call.ledger).executed
  distinct : ∀ (i j : Nat) x y, calls[i]? = some x → calls[j]? = some y → x.moved = true →
    y.moved = true → x.ledger = y.ledger → x.transfer = y.transfer → i = j

theorem deduped_nil (ledgers : K → Ledger A) : Deduped ledgers ([] : List (Call K A O)) := by
  constructor
  · intro i call h
    exact absurd h (by simp)
  · intro i j x y h
    exact absurd h (by simp)

theorem getElem?_concat {α : Type} {l : List α} {x y : α} {i : Nat} (h : (l ++ [x])[i]? = some y) :
    l[i]? = some y ∨ y = x := by
  by_cases hi : i < l.length
  · rw [List.getElem?_append_left hi] at h
    exact Or.inl h
  · rw [List.getElem?_append_right (Nat.le_of_not_lt hi)] at h
    have hmem := List.mem_of_getElem? h
    exact Or.inr (List.mem_singleton.mp hmem)

theorem Deduped.append {ledgers : K → Ledger A} {calls : List (Call K A O)} {call : Call K A O}
    (h : Deduped ledgers calls) (hcall : call.outcome = none) :
    Deduped ledgers (calls ++ [call]) := by
  have hold {i : Nat} {x : Call K A O} (hx : (calls ++ [call])[i]? = some x)
      (hmoved : x.moved = true) : calls[i]? = some x := by
    rcases getElem?_concat hx with hx | rfl
    · exact hx
    · rw [Call.moved, hcall] at hmoved
      exact absurd hmoved (by simp)
  constructor
  · intro i x hx hmoved
    exact h.logged i x (hold hx hmoved) hmoved
  · intro i j x y hx hy hxm hym
    exact h.distinct i j x y (hold hx hxm) (hold hy hym) hxm hym

theorem Deduped.appends {ledgers : K → Ledger A} {calls sent : List (Call K A O)}
    (h : Deduped ledgers calls) (hsent : ∀ call ∈ sent, call.outcome = none) :
    Deduped ledgers (calls ++ sent) := by
  induction sent generalizing calls with
  | nil =>
      rw [List.append_nil]
      exact h
  | cons call sent ih =>
      rw [List.append_cons]
      apply ih (h.append (hsent call List.mem_cons_self))
      intro later hlater
      exact hsent later (List.mem_cons_of_mem call hlater)

theorem Deduped.ledgers {ledgers ledgers' : K → Ledger A} {calls : List (Call K A O)}
    (h : Deduped ledgers calls)
    (hkeep : ∀ k x, x ∈ (ledgers k).executed → x ∈ (ledgers' k).executed) :
    Deduped ledgers' calls :=
  ⟨fun i call hcall hmoved => hkeep _ _ (h.logged i call hcall hmoved), h.distinct⟩

variable [DecidableEq K]

theorem getElem?_set_cases {α : Type} {l : List α} {x y : α} {i j : Nat}
    (h : (l.set i x)[j]? = some y) : (j = i ∧ y = x) ∨ (j ≠ i ∧ l[j]? = some y) := by
  rw [List.getElem?_set] at h
  split_ifs at h with heq hlt
  · exact Or.inl ⟨heq.symm, (Option.some.inj h).symm⟩
  · exact Or.inr ⟨fun hji => heq hji.symm, h⟩

theorem Executes.keeps {custodian : A} {ledgers ledgers' : K → Ledger A}
    {calls calls' : List (Call K A O)} {i : Nat} {call : Call K A O} {outcome : Outcome}
    {l : Ledger A} (h : Executes custodian ledgers ledgers' calls calls' i call outcome l) (k : K)
    (x : Transfer A) (hx : x ∈ (ledgers k).executed) : x ∈ (ledgers' k).executed := by
  rw [h.updated]
  by_cases hk : k = call.ledger
  · subst hk
    rw [Function.update_self]
    rcases h.effect with ⟨rfl, -⟩ | ⟨-, -, hmoves⟩
    · exact hx
    · rw [hmoves.executed]
      exact List.mem_append_left _ hx
  · rw [Function.update_of_ne hk]
    exact hx

theorem Executes.origins {custodian : A} {ledgers ledgers' : K → Ledger A}
    {calls calls' : List (Call K A O)} {i : Nat} {call : Call K A O} {outcome : Outcome}
    {l : Ledger A} (h : Executes custodian ledgers ledgers' calls calls' i call outcome l) :
    calls'.map (fun call => call.origin) = calls.map (fun call => call.origin) := by
  obtain ⟨hi, hcall⟩ := List.getElem?_eq_some_iff.mp h.called
  rw [h.answered, List.map_set]
  apply List.ext_getElem?
  intro j
  rw [List.getElem?_set]
  split_ifs with hij hlt
  · subst hij
    simp [h.called, Call.answered]
  · subst hij
    exact absurd (by simpa using hi) hlt
  · rfl

theorem Executes.prior {custodian : A} {ledgers ledgers' : K → Ledger A}
    {calls calls' : List (Call K A O)} {i j : Nat} {call new : Call K A O} {outcome : Outcome}
    {l : Ledger A} (h : Executes custodian ledgers ledgers' calls calls' i call outcome l)
    (hnew : calls'[j]? = some new) : ∃ old, calls[j]? = some old ∧ new.Prior old := by
  rw [h.answered] at hnew
  rcases getElem?_set_cases hnew with ⟨rfl, rfl⟩ | ⟨-, hold⟩
  · refine ⟨call, h.called, rfl, rfl, rfl, ?_⟩
    intro _
    rw [Call.mayMove, h.unanswered]
    rfl
  · exact ⟨new, hold, .refl new⟩

theorem Executes.logs {custodian : A} {ledgers ledgers' : K → Ledger A}
    {calls calls' : List (Call K A O)} {i : Nat} {call : Call K A O} {outcome : Outcome}
    {l : Ledger A} (h : Executes custodian ledgers ledgers' calls calls' i call outcome l)
    (hmoved : outcome.isMoved = true) : call.transfer ∉ (ledgers call.ledger).executed ∧
      call.transfer ∈ (ledgers' call.ledger).executed := by
  rcases h.effect with ⟨-, hfalse⟩ | ⟨hfresh, -, hmoves⟩
  · exact absurd (hmoved.symm.trans hfalse) (by simp)
  · refine ⟨hfresh, ?_⟩
    rw [h.updated, Function.update_self, hmoves.executed]
    exact List.mem_append_right _ (List.mem_singleton_self _)

theorem Deduped.executes {custodian : A} {ledgers ledgers' : K → Ledger A}
    {calls calls' : List (Call K A O)} {i : Nat} {call : Call K A O} {outcome : Outcome}
    {l : Ledger A} (h : Deduped ledgers calls)
    (hx : Executes custodian ledgers ledgers' calls calls' i call outcome l) :
    Deduped ledgers' calls' := by
  have hmem (j : Nat) (y : Call K A O) (hj : calls'[j]? = some y) :
      (j = i ∧ y = call.answered outcome) ∨ (j ≠ i ∧ calls[j]? = some y) := by
    rw [hx.answered] at hj
    exact getElem?_set_cases hj
  constructor
  · intro j y hj hmoved
    rcases hmem j y hj with ⟨-, rfl⟩ | ⟨-, hj⟩
    · exact (hx.logs hmoved).2
    · exact hx.keeps _ _ (h.logged j y hj hmoved)
  · intro j k y z hj hk hy hz hledger htransfer
    rcases hmem j y hj with ⟨rfl, rfl⟩ | ⟨hji, hj⟩
    · rcases hmem k z hk with ⟨rfl, -⟩ | ⟨-, hk⟩
      · rfl
      · have hlogged := h.logged k z hk hz
        rw [← hledger, ← htransfer] at hlogged
        exact absurd hlogged (hx.logs hy).1
    · rcases hmem k z hk with ⟨rfl, rfl⟩ | ⟨-, hk⟩
      · have hlogged := h.logged j y hj hy
        rw [hledger, htransfer] at hlogged
        exact absurd hlogged (hx.logs hz).1
      · exact h.distinct j k y z hj hk hy hz hledger htransfer

end

end DedupLedger
