import Kasane.Export.InternalTrace
import Kasane.Gateway.RequestCodec
import Kasane.Lib.Forest
import Kasane.Precompile.Run

namespace Kasane.Exec.Trace

open BigEndian Codec Word Export
open Chain (Address)
open Gateway (textBytes)
open Precompile (U256 CallValue amountBytes)

inductive CallScheme where
  | call
  | callCode
  | delegateCall
  | staticCall
deriving DecidableEq, Repr

structure CallInputs where
  scheme : CallScheme
  caller : Address
  targetAddress : Address
  value : CallValue
deriving DecidableEq

def CallInputs.callValue (inputs : CallInputs) : U256 := inputs.value.get

inductive CreateScheme where
  | create
  | create2 (salt : U256)
  | custom (address : Address)
deriving DecidableEq

structure CreateInputs where
  scheme : CreateScheme
  caller : Address
  value : U256
deriving DecidableEq

inductive InstructionResult where
  | stop
  | return_
  | selfDestruct
  | revert
  | callTooDeep
  | outOfFunds
  | createInitCodeStartingEF00
  | invalidEOFInitCode
  | invalidExtDelegateCallTarget
  | outOfGas
  | memoryOOG
  | memoryLimitOOG
  | precompileOOG
  | invalidOperandOOG
  | reentrancySentryOOG
  | opcodeNotFound
  | callNotAllowedInsideStatic
  | stateChangeDuringStaticCall
  | invalidFEOpcode
  | invalidJump
  | notActivated
  | stackUnderflow
  | stackOverflow
  | outOfOffset
  | createCollision
  | overflowPayment
  | precompileError
  | nonceOverflow
  | createContractSizeLimit
  | createContractStartingWithEF
  | createInitCodeSizeLimit
  | fatalExternalError
deriving DecidableEq, Repr

def InstructionResult.debug : InstructionResult → String
  | .stop => "Stop"
  | .return_ => "Return"
  | .selfDestruct => "SelfDestruct"
  | .revert => "Revert"
  | .callTooDeep => "CallTooDeep"
  | .outOfFunds => "OutOfFunds"
  | .createInitCodeStartingEF00 => "CreateInitCodeStartingEF00"
  | .invalidEOFInitCode => "InvalidEOFInitCode"
  | .invalidExtDelegateCallTarget => "InvalidExtDelegateCallTarget"
  | .outOfGas => "OutOfGas"
  | .memoryOOG => "MemoryOOG"
  | .memoryLimitOOG => "MemoryLimitOOG"
  | .precompileOOG => "PrecompileOOG"
  | .invalidOperandOOG => "InvalidOperandOOG"
  | .reentrancySentryOOG => "ReentrancySentryOOG"
  | .opcodeNotFound => "OpcodeNotFound"
  | .callNotAllowedInsideStatic => "CallNotAllowedInsideStatic"
  | .stateChangeDuringStaticCall => "StateChangeDuringStaticCall"
  | .invalidFEOpcode => "InvalidFEOpcode"
  | .invalidJump => "InvalidJump"
  | .notActivated => "NotActivated"
  | .stackUnderflow => "StackUnderflow"
  | .stackOverflow => "StackOverflow"
  | .outOfOffset => "OutOfOffset"
  | .createCollision => "CreateCollision"
  | .overflowPayment => "OverflowPayment"
  | .precompileError => "PrecompileError"
  | .nonceOverflow => "NonceOverflow"
  | .createContractSizeLimit => "CreateContractSizeLimit"
  | .createContractStartingWithEF => "CreateContractStartingWithEF"
  | .createInitCodeSizeLimit => "CreateInitCodeSizeLimit"
  | .fatalExternalError => "FatalExternalError"

structure CreateOutcome where
  instructionResult : InstructionResult
  address : Option Address
deriving DecidableEq

def traceOutcomeStatus : InstructionResult → Bool × Option Bytes
  | .stop | .return_ | .selfDestruct => (true, none)
  | .revert => (false, some (textBytes "Revert"))
  | other => (false, some (textBytes other.debug))

def renderTraceId : List Nat → String
  | [] => ""
  | segment :: segments =>
      segments.foldl (fun out segment => out.push '_' ++ segment.repr) segment.repr

structure InternalTraceDraft where
  traceId : List Nat
  trace : InternalTrace

-- both stacks are kept top first
structure InternalTraceInspector where
  blockNumber : UInt64
  txIndex : UInt32
  frameChildren : List Nat
  activePaths : List (Option (List Nat))
  traces : List InternalTraceDraft
  totalCount : Nat

def InternalTraceSet.newWithCounts (items : List InternalTrace) (totalCount : UInt32) :
    InternalTraceSet :=
  let capturedCount := (u32TryFrom items.length).getD (UInt32.ofNat u32Max)
  { items := items
    encodeFailed := false
    capturedCount := capturedCount
    totalCount := totalCount
    truncated := decide (totalCount > capturedCount) }

def updateLast {α : Type} (found : α → Bool) (update : α → α) : List α → List α
  | [] => []
  | item :: items =>
      if items.any found then item :: updateLast found update items
      else if found item then update item :: items
      else item :: items

namespace InternalTraceInspector

def new (blockNumber : UInt64) (txIndex : UInt32) : InternalTraceInspector :=
  { blockNumber := blockNumber
    txIndex := txIndex
    frameChildren := [0]
    activePaths := []
    traces := []
    totalCount := 0 }

def finish (i : InternalTraceInspector) : InternalTraceSet :=
  InternalTraceSet.newWithCounts (i.traces.map InternalTraceDraft.trace) (UInt32.ofNat i.totalCount)

def activePath (i : InternalTraceInspector) : List Nat := (i.activePaths.head?.join).getD []

def allocateEventTraceId (i : InternalTraceInspector) :
    Option (List Nat × InternalTraceInspector) :=
  match i.frameChildren with
  | [] => none
  | nextChild :: outer =>
      some (i.activePath ++ [nextChild],
        { i with frameChildren := saturatingAdd u32Max nextChild 1 :: outer })

-- `none` is the panic of the missing root frame
def allocateTraceId (i : InternalTraceInspector) : Option (List Nat × InternalTraceInspector) := do
  let (traceId, i) ← i.allocateEventTraceId
  pure (traceId, { i with frameChildren := 0 :: i.frameChildren })

def countTrace (i : InternalTraceInspector) (traceId : List Nat)
    (trace : UInt64 → UInt32 → List Nat → InternalTrace) : InternalTraceInspector :=
  { i with
    totalCount := saturatingAdd u32Max i.totalCount 1
    traces := if i.traces.length < maxInternalTracesPerTx then
        i.traces ++ [⟨traceId, trace i.blockNumber i.txIndex traceId⟩]
      else i.traces }

def startAction (i : InternalTraceInspector) (actionKind : InternalTraceActionKind)
    (fromAddress : Address) (toAddress createdContractAddress : Option Address)
    (value : ByteArr 32) : Option InternalTraceInspector := do
  let (traceId, i) ← i.allocateTraceId
  if i.activePaths ≠ [] then
    let i := i.countTrace traceId fun blockNumber txIndex traceId =>
      { blockNumber := blockNumber
        txIndex := txIndex
        traceId := textBytes (renderTraceId traceId)
        depth := UInt16.ofNat traceId.length
        actionKind := actionKind
        fromAddress := fromAddress
        toAddress := toAddress
        value := value
        createdContractAddress := createdContractAddress
        success := false
        errorCode := some (textBytes "pending") }
    pure { i with activePaths := some traceId :: i.activePaths }
  else pure { i with activePaths := none :: i.activePaths }

def finishDraft (success : Bool) (errorCode : Option Bytes)
    (createdContractAddress : Option Address) (item : InternalTraceDraft) : InternalTraceDraft :=
  { item with
    trace := { item.trace with
      success := success
      errorCode := errorCode
      createdContractAddress := createdContractAddress <|> item.trace.createdContractAddress } }

def finishAction (i : InternalTraceInspector) (success : Bool) (errorCode : Option Bytes)
    (createdContractAddress : Option Address) : InternalTraceInspector :=
  let popped := { i with
    activePaths := i.activePaths.tail
    frameChildren := i.frameChildren.tail }
  match i.activePaths.head?.join with
  | none => popped
  | some traceId =>
      { popped with
        traces := updateLast (fun item => decide (item.traceId = traceId))
          (finishDraft success errorCode createdContractAddress) i.traces }

def startCall (i : InternalTraceInspector) (inputs : CallInputs) : Option InternalTraceInspector :=
  let actionKind := match inputs.scheme with
    | .call => InternalTraceActionKind.call
    | .callCode => .callCode
    | .delegateCall => .delegateCall
    | .staticCall => .staticCall
  i.startAction actionKind inputs.caller (some inputs.targetAddress) none
    (amountBytes inputs.callValue)

def endCall (i : InternalTraceInspector) (outcome : InstructionResult) : InternalTraceInspector :=
  let status := traceOutcomeStatus outcome
  i.finishAction status.1 status.2 none

def startCreate (i : InternalTraceInspector) (inputs : CreateInputs) :
    Option InternalTraceInspector :=
  let actionKind := match inputs.scheme with
    | .create => InternalTraceActionKind.create
    | .create2 _ => .create2
    | .custom _ => .custom
  i.startAction actionKind inputs.caller none none (amountBytes inputs.value)

def endCreate (i : InternalTraceInspector) (outcome : CreateOutcome) : InternalTraceInspector :=
  let status := traceOutcomeStatus outcome.instructionResult
  i.finishAction status.1 status.2 outcome.address

def recordSelfdestruct (i : InternalTraceInspector) (contract target : Address) (value : U256) :
    InternalTraceInspector :=
  if i.activePaths = [] then i
  else
    match i.allocateEventTraceId with
    | none => i
    | some (traceId, i) =>
        i.countTrace traceId fun blockNumber txIndex traceId =>
          { blockNumber := blockNumber
            txIndex := txIndex
            traceId := textBytes (renderTraceId traceId)
            depth := UInt16.ofNat traceId.length
            actionKind := .selfdestruct
            fromAddress := contract
            toAddress := some target
            value := amountBytes value
            createdContractAddress := none
            success := true
            errorCode := none }

end InternalTraceInspector

inductive TraceAction where
  | call (inputs : CallInputs) (outcome : InstructionResult)
  | create (inputs : CreateInputs) (outcome : CreateOutcome)
deriving DecidableEq

structure Selfdestruct where
  contract : Address
  target : Address
  value : U256
deriving DecidableEq

abbrev TraceForest := Forest TraceAction Selfdestruct

abbrev TraceEvent := Forest.Visit TraceAction Selfdestruct

namespace InternalTraceInspector

-- the hooks of the inspector: only a frame's inputs are known when it starts and only its outcome
-- is read when it ends
def inspect (i : InternalTraceInspector) : TraceEvent → Option InternalTraceInspector
  | .opens (.call inputs _) => i.startCall inputs
  | .closes (.call _ outcome) => some (i.endCall outcome)
  | .opens (.create inputs _) => i.startCreate inputs
  | .closes (.create _ outcome) => some (i.endCreate outcome)
  | .meets destroyed =>
      some (i.recordSelfdestruct destroyed.contract destroyed.target destroyed.value)

def inspectAll (i : InternalTraceInspector) (events : List TraceEvent) :
    Option InternalTraceInspector :=
  events.foldlM inspect i

end InternalTraceInspector

namespace TraceAction

def actionKind : TraceAction → InternalTraceActionKind
  | call inputs _ =>
      match inputs.scheme with
      | .call => .call
      | .callCode => .callCode
      | .delegateCall => .delegateCall
      | .staticCall => .staticCall
  | create inputs _ =>
      match inputs.scheme with
      | .create => .create
      | .create2 _ => .create2
      | .custom _ => .custom

def fromAddress : TraceAction → Address
  | call inputs _ => inputs.caller
  | create inputs _ => inputs.caller

def toAddress : TraceAction → Option Address
  | call inputs _ => some inputs.targetAddress
  | create _ _ => none

def value : TraceAction → ByteArr 32
  | call inputs _ => amountBytes inputs.callValue
  | create inputs _ => amountBytes inputs.value

def result : TraceAction → InstructionResult
  | call _ outcome => outcome
  | create _ outcome => outcome.instructionResult

def created : TraceAction → Option Address
  | call _ _ => none
  | create _ outcome => outcome.address

end TraceAction

-- what the record of an internal event holds once the event is over
def recorded (blockNumber : UInt64) (txIndex : UInt32) (id : List Nat) :
    TraceAction ⊕ Selfdestruct → InternalTrace
  | .inl action =>
      { blockNumber := blockNumber
        txIndex := txIndex
        traceId := textBytes (renderTraceId id)
        depth := UInt16.ofNat id.length
        actionKind := action.actionKind
        fromAddress := action.fromAddress
        toAddress := action.toAddress
        value := action.value
        createdContractAddress := action.created
        success := (traceOutcomeStatus action.result).1
        errorCode := (traceOutcomeStatus action.result).2 }
  | .inr destroyed =>
      { blockNumber := blockNumber
        txIndex := txIndex
        traceId := textBytes (renderTraceId id)
        depth := UInt16.ofNat id.length
        actionKind := .selfdestruct
        fromAddress := destroyed.contract
        toAddress := some destroyed.target
        value := amountBytes destroyed.value
        createdContractAddress := none
        success := true
        errorCode := none }

def pending (blockNumber : UInt64) (txIndex : UInt32) (id : List Nat) (action : TraceAction) :
    InternalTrace :=
  { recorded blockNumber txIndex id (.inl action) with
    createdContractAddress := none
    success := false
    errorCode := some (textBytes "pending") }

def capture (traces drafts : List InternalTraceDraft) : List InternalTraceDraft :=
  traces ++ drafts.take (maxInternalTracesPerTx - traces.length)

def drafts (blockNumber : UInt64) (txIndex : UInt32)
    (entries : List (List Nat × (TraceAction ⊕ Selfdestruct))) : List InternalTraceDraft :=
  entries.map (fun entry => ⟨entry.1, recorded blockNumber txIndex entry.1 entry.2⟩)

theorem drafts_cons (blockNumber : UInt64) (txIndex : UInt32)
    (entry : List Nat × (TraceAction ⊕ Selfdestruct))
    (entries : List (List Nat × (TraceAction ⊕ Selfdestruct))) :
    drafts blockNumber txIndex (entry :: entries) =
      ⟨entry.1, recorded blockNumber txIndex entry.1 entry.2⟩ ::
        drafts blockNumber txIndex entries :=
  rfl

theorem drafts_append (blockNumber : UInt64) (txIndex : UInt32)
    (first second : List (List Nat × (TraceAction ⊕ Selfdestruct))) :
    drafts blockNumber txIndex (first ++ second) =
      drafts blockNumber txIndex first ++ drafts blockNumber txIndex second :=
  List.map_append

theorem capture_nil (traces : List InternalTraceDraft) : capture traces [] = traces := by
  simp [capture]

theorem capture_of_full {traces : List InternalTraceDraft}
    (h : ¬ traces.length < maxInternalTracesPerTx) (more : List InternalTraceDraft) :
    capture traces more = traces := by
  rw [capture, Nat.sub_eq_zero_of_le (Nat.le_of_not_lt h), List.take_zero, List.append_nil]

theorem capture_cons {traces : List InternalTraceDraft}
    (h : traces.length < maxInternalTracesPerTx) (draft : InternalTraceDraft)
    (more : List InternalTraceDraft) :
    capture traces (draft :: more) = capture (traces ++ [draft]) more := by
  rw [capture, capture, List.length_append, List.length_singleton, Nat.sub_add_eq]
  obtain ⟨room, hroom⟩ : ∃ room, maxInternalTracesPerTx - traces.length = room + 1 :=
    Nat.exists_eq_succ_of_ne_zero (Nat.sub_ne_zero_of_lt h)
  simp [hroom]

theorem capture_append (traces first second : List InternalTraceDraft) :
    capture traces (first ++ second) = capture (capture traces first) second := by
  simp only [capture, List.take_append, List.length_append, List.length_take, List.append_assoc,
    List.append_cancel_left_eq]
  congr 1
  omega

theorem length_le_capture (traces more : List InternalTraceDraft) :
    traces.length ≤ (capture traces more).length := by
  simp [capture]

theorem mem_capture {traces more : List InternalTraceDraft} {draft : InternalTraceDraft}
    (h : draft ∈ capture traces more) : draft ∈ traces ∨ draft ∈ more := by
  rcases List.mem_append.mp h with h | h
  · exact .inl h
  · exact .inr (List.mem_of_mem_take h)

theorem mem_drafts {blockNumber : UInt64} {txIndex : UInt32}
    {entries : List (List Nat × (TraceAction ⊕ Selfdestruct))} {draft : InternalTraceDraft}
    (h : draft ∈ drafts blockNumber txIndex entries) : ∃ entry ∈ entries, draft.traceId = entry.1 := by
  obtain ⟨entry, hentry, rfl⟩ := List.mem_map.mp h
  exact ⟨entry, hentry, rfl⟩

theorem updateLast_of_absent {α : Type} {found : α → Bool} {items : List α}
    (h : ∀ item ∈ items, found item = false) (update : α → α) :
    updateLast found update items = items := by
  cases items with
  | nil => rfl
  | cons item items =>
      have hany : items.any found = false :=
        List.any_eq_false.mpr fun x hx => by simp [h x (List.mem_cons_of_mem _ hx)]
      simp [updateLast, hany, h item List.mem_cons_self]

theorem updateLast_append_cons {α : Type} (found : α → Bool) {before after : List α} {item : α}
    (hitem : found item = true) (hafter : ∀ x ∈ after, found x = false) (update : α → α) :
    updateLast found update (before ++ item :: after) = before ++ update item :: after := by
  induction before with
  | nil =>
      have hany : after.any found = false :=
        List.any_eq_false.mpr fun x hx => by simp [hafter x hx]
      simp [updateLast, hany, hitem]
  | cons x before ih =>
      have hany : (before ++ item :: after).any found = true := by simp [hitem]
      simp [updateLast, hany, ih]

end Kasane.Exec.Trace
