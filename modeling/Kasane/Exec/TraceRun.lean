import Kasane.Exec.TraceIds

namespace Kasane.Exec.Trace

open BigEndian Codec Word Export

namespace InternalTraceInspector

-- where the inspector stands inside a frame: `next` is the frame's next child position
structure Stands (i : InternalTraceInspector) (top : Option (List Nat))
    (stack : List (Option (List Nat))) (next : Nat) (outer : List Nat) : Prop where
  active : i.activePaths = top :: stack
  counters : i.frameChildren = next :: outer
  earlier : ∀ item ∈ i.traces, item.traceId < top.getD [] ++ [next]
  spare : i.traces.length < maxInternalTracesPerTx → next ≤ i.traces.length
  fits : next ≤ u32Max
  counted : i.totalCount ≤ u32Max

variable {i : InternalTraceInspector} {top : Option (List Nat)} {stack : List (Option (List Nat))}
  {next : Nat} {outer : List Nat}

theorem inspect_opens (i : InternalTraceInspector) (action : TraceAction) :
    i.inspect (.opens action) =
      i.startAction action.actionKind action.fromAddress action.toAddress none action.value := by
  cases action with
  | call inputs outcome => rfl
  | create inputs outcome => rfl

theorem inspect_closes (i : InternalTraceInspector) (action : TraceAction) :
    i.inspect (.closes action) = some (i.finishAction (traceOutcomeStatus action.result).1
      (traceOutcomeStatus action.result).2 action.created) := by
  cases action with
  | call inputs outcome => rfl
  | create inputs outcome => rfl

theorem traces_countTrace (i : InternalTraceInspector) (id : List Nat)
    (trace : UInt64 → UInt32 → List Nat → InternalTrace) :
    (i.countTrace id trace).traces =
      capture i.traces [⟨id, trace i.blockNumber i.txIndex id⟩] := by
  rw [countTrace]
  by_cases hroom : i.traces.length < maxInternalTracesPerTx
  · rw [if_pos hroom, capture_cons hroom, capture_nil]
  · rw [if_neg hroom, capture_of_full hroom]

def opened (i : InternalTraceInspector) (id : List Nat) (next : Nat) (outer : List Nat)
    (action : TraceAction) : InternalTraceInspector :=
  { i with
    frameChildren := 0 :: saturatingAdd u32Max next 1 :: outer
    activePaths := some id :: i.activePaths
    traces := capture i.traces [⟨id, pending i.blockNumber i.txIndex id action⟩]
    totalCount := saturatingAdd u32Max i.totalCount 1 }

theorem Stands.inspect_opens (h : Stands i top stack next outer) (action : TraceAction) :
    i.inspect (.opens action) = some (i.opened (top.getD [] ++ [next]) next outer action) := by
  rw [InternalTraceInspector.inspect_opens, startAction, allocateTraceId, allocateEventTraceId,
    h.counters]
  have hinternal : i.activePaths ≠ [] := by simp [h.active]
  have hpath : i.activePath = top.getD [] := by simp [activePath, h.active]
  simp only [Option.pure_def, Option.bind_eq_bind, Option.bind_some, hpath]
  rw [if_pos hinternal]
  simp only [opened, countTrace, Option.some.injEq, InternalTraceInspector.mk.injEq, true_and,
    and_true, pending, recorded]
  by_cases hroom : i.traces.length < maxInternalTracesPerTx
  · rw [if_pos hroom, capture_cons hroom, capture_nil]
  · rw [if_neg hroom, capture_of_full hroom]

theorem Stands.opened (h : Stands i top stack next outer) (action : TraceAction) :
    Stands (i.opened (top.getD [] ++ [next]) next outer action) (some (top.getD [] ++ [next]))
      (top :: stack) 0 (saturatingAdd u32Max next 1 :: outer) where
  active := by rw [InternalTraceInspector.opened, h.active]
  counters := rfl
  earlier item hitem := by
    rcases mem_capture hitem with hitem | hitem
    · exact List.lt_trans (h.earlier item hitem) (Forest.lt_append_cons _ [] 0)
    · obtain rfl := List.mem_singleton.mp hitem
      exact Forest.lt_append_cons _ [] 0
  spare _ := Nat.zero_le _
  fits := Nat.zero_le _
  counted := Nat.min_le_right _ _

def walked (i : InternalTraceInspector) (path : List Nat) (next last : Nat) (outer : List Nat)
    (forest : TraceForest) : InternalTraceInspector :=
  { i with
    frameChildren := last :: outer
    traces := capture i.traces (drafts i.blockNumber i.txIndex (forest.listed path next))
    totalCount := saturatingAdd u32Max i.totalCount forest.size }

def closed (i : InternalTraceInspector) (path : List Nat) (next : Nat) (outer : List Nat)
    (action : TraceAction) (children : TraceForest) : InternalTraceInspector :=
  { i with
    frameChildren := saturatingAdd u32Max next 1 :: outer
    traces := capture i.traces (drafts i.blockNumber i.txIndex
      ((path ++ [next], .inl action) :: children.listed (path ++ [next]) 0))
    totalCount := saturatingAdd u32Max i.totalCount (children.size + 1) }

def finishOf (action : TraceAction) : InternalTraceDraft → InternalTraceDraft :=
  finishDraft (traceOutcomeStatus action.result).1 (traceOutcomeStatus action.result).2
    action.created

theorem finishOf_pending (blockNumber : UInt64) (txIndex : UInt32) (id : List Nat)
    (action : TraceAction) :
    finishOf action ⟨id, pending blockNumber txIndex id action⟩ =
      ⟨id, recorded blockNumber txIndex id (.inl action)⟩ := by
  cases hcreated : action.created <;>
    simp [finishOf, finishDraft, pending, recorded, hcreated]

theorem Stands.absent (h : Stands i top stack next outer) :
    ∀ item ∈ i.traces, decide (item.traceId = top.getD [] ++ [next]) = false := by
  intro item hitem
  rw [decide_eq_false_iff_not]
  intro heq
  have hlt := h.earlier item hitem
  rw [heq] at hlt
  exact List.lt_irrefl _ hlt

theorem children_absent (blockNumber : UInt64) (txIndex : UInt32) (id : List Nat)
    (children : TraceForest) (count : Nat) :
    ∀ item ∈ (drafts blockNumber txIndex (children.listed id 0)).take count,
      decide (item.traceId = id) = false := by
  intro item hitem
  obtain ⟨entry, hentry, hid⟩ := mem_drafts (List.mem_of_mem_take hitem)
  rw [decide_eq_false_iff_not, hid]
  intro heq
  have hlt := Forest.lt_mem_listed hentry
  rw [heq] at hlt
  exact List.lt_irrefl _ hlt

-- an end event finds the draft that its start event pushed: what came before is smaller and what
-- came after lies below it
theorem Stands.updateLast_traces (h : Stands i top stack next outer) (action : TraceAction)
    (children : TraceForest) :
    updateLast (fun item => decide (item.traceId = top.getD [] ++ [next])) (finishOf action)
        (capture (i.opened (top.getD [] ++ [next]) next outer action).traces
          (drafts i.blockNumber i.txIndex (children.listed (top.getD [] ++ [next]) 0))) =
      capture i.traces (drafts i.blockNumber i.txIndex
        ((top.getD [] ++ [next], .inl action) :: children.listed (top.getD [] ++ [next]) 0)) := by
  rw [InternalTraceInspector.opened]
  by_cases hroom : i.traces.length < maxInternalTracesPerTx
  · rw [drafts_cons, capture_cons hroom, capture_cons hroom, capture_nil]
    simp only [capture, List.append_assoc, List.singleton_append, List.length_append,
      List.length_singleton]
    have hown (trace : InternalTrace) : decide ((⟨top.getD [] ++ [next], trace⟩ :
        InternalTraceDraft).traceId = top.getD [] ++ [next]) = true := decide_eq_true rfl
    rw [updateLast_append_cons (fun item : InternalTraceDraft =>
      decide (item.traceId = top.getD [] ++ [next])) (hown _)
      (children_absent i.blockNumber i.txIndex _ children _), finishOf_pending]
  · rw [capture_of_full hroom, capture_of_full hroom, capture_of_full hroom,
      updateLast_of_absent h.absent]

theorem Stands.inspect_closes (h : Stands i top stack next outer) (action : TraceAction)
    (children : TraceForest) (last : Nat) :
    ((i.opened (top.getD [] ++ [next]) next outer action).walked (top.getD [] ++ [next]) 0 last
        (saturatingAdd u32Max next 1 :: outer) children).inspect (.closes action) =
      some (i.closed (top.getD []) next outer action children) := by
  rw [InternalTraceInspector.inspect_closes, finishAction]
  simp only [walked, InternalTraceInspector.opened, List.head?_cons, Option.join_some,
    List.tail_cons, closed, Option.some.injEq, InternalTraceInspector.mk.injEq, true_and]
  refine ⟨h.updateLast_traces action children, ?_⟩
  simp only [saturatingAdd]
  omega

theorem Stands.next_lt (h : Stands i top stack next outer)
    (hroom : i.traces.length < maxInternalTracesPerTx) :
    saturatingAdd u32Max next 1 = next + 1 := by
  have hle := h.spare hroom
  rw [saturatingAdd, Nat.min_eq_left]
  rw [maxInternalTracesPerTx] at hroom
  rw [u32Max]
  omega

theorem Stands.closed (h : Stands i top stack next outer) (action : TraceAction)
    (children : TraceForest) :
    Stands (i.closed (top.getD []) next outer action children) top stack
      (saturatingAdd u32Max next 1) outer where
  active := h.active
  counters := rfl
  earlier item hitem := by
    by_cases hroom : i.traces.length < maxInternalTracesPerTx
    · rw [h.next_lt hroom]
      rcases mem_capture hitem with hitem | hitem
      · exact List.lt_trans (h.earlier item hitem) (Forest.append_cons_lt (Nat.lt_succ_self next))
      · obtain ⟨entry, hentry, hid⟩ := mem_drafts hitem
        rw [hid]
        rcases List.mem_cons.mp hentry with rfl | hentry
        · exact Forest.append_cons_lt (Nat.lt_succ_self next)
        · obtain ⟨position, deeper, hbelow, -⟩ := Forest.mem_listed_form hentry
          rw [hbelow, List.append_assoc]
          exact Forest.append_cons_lt (Nat.lt_succ_self next)
    · rw [InternalTraceInspector.closed, capture_of_full hroom] at hitem
      exact Forest.lt_of_lt_append (h.earlier item hitem)
        (Nat.le_min.mpr ⟨Nat.le_succ next, h.fits⟩)
  spare hroom := by
    rw [InternalTraceInspector.closed] at hroom ⊢
    have hbefore := Nat.lt_of_le_of_lt (length_le_capture _ _) hroom
    rw [h.next_lt hbefore, drafts_cons, capture_cons hbefore]
    refine Nat.le_trans ?_ (length_le_capture _ _)
    rw [List.length_append, List.length_singleton]
    exact Nat.succ_le_succ (h.spare hbefore)
  fits := Nat.min_le_right _ _
  counted := Nat.min_le_right _ _

def destroyed (i : InternalTraceInspector) (path : List Nat) (next : Nat) (outer : List Nat)
    (selfdestruct : Selfdestruct) : InternalTraceInspector :=
  { i with
    frameChildren := saturatingAdd u32Max next 1 :: outer
    traces := capture i.traces
      (drafts i.blockNumber i.txIndex [(path ++ [next], .inr selfdestruct)])
    totalCount := saturatingAdd u32Max i.totalCount 1 }

theorem Stands.inspect_meets (h : Stands i top stack next outer) (selfdestruct : Selfdestruct) :
    i.inspect (.meets selfdestruct) =
      some (i.destroyed (top.getD []) next outer selfdestruct) := by
  have hinternal : i.activePaths ≠ [] := by simp [h.active]
  have hpath : i.activePath = top.getD [] := by simp [activePath, h.active]
  rw [inspect, recordSelfdestruct, if_neg hinternal, allocateEventTraceId, h.counters]
  simp only [hpath, destroyed, countTrace, drafts, List.map_cons, List.map_nil, recorded,
    Option.some.injEq, InternalTraceInspector.mk.injEq, true_and, and_true]
  by_cases hroom : i.traces.length < maxInternalTracesPerTx
  · rw [if_pos hroom, capture_cons hroom, capture_nil]
  · rw [if_neg hroom, capture_of_full hroom]

theorem Stands.destroyed (h : Stands i top stack next outer) (selfdestruct : Selfdestruct) :
    Stands (i.destroyed (top.getD []) next outer selfdestruct) top stack
      (saturatingAdd u32Max next 1) outer where
  active := h.active
  counters := rfl
  earlier item hitem := by
    by_cases hroom : i.traces.length < maxInternalTracesPerTx
    · rw [h.next_lt hroom]
      rcases mem_capture hitem with hitem | hitem
      · exact List.lt_trans (h.earlier item hitem) (Forest.append_cons_lt (Nat.lt_succ_self next))
      · obtain rfl := List.mem_singleton.mp hitem
        exact Forest.append_cons_lt (Nat.lt_succ_self next)
    · rw [InternalTraceInspector.destroyed, capture_of_full hroom] at hitem
      exact Forest.lt_of_lt_append (h.earlier item hitem)
        (Nat.le_min.mpr ⟨Nat.le_succ next, h.fits⟩)
  spare hroom := by
    rw [InternalTraceInspector.destroyed] at hroom ⊢
    have hbefore := Nat.lt_of_le_of_lt (length_le_capture _ _) hroom
    rw [h.next_lt hbefore, drafts_cons, capture_cons hbefore]
    refine Nat.le_trans ?_ (length_le_capture _ _)
    rw [List.length_append, List.length_singleton]
    exact Nat.succ_le_succ (h.spare hbefore)
  fits := Nat.min_le_right _ _
  counted := Nat.min_le_right _ _

theorem inspectAll_append (i : InternalTraceInspector) (first second : List TraceEvent) :
    i.inspectAll (first ++ second) = (i.inspectAll first).bind (·.inspectAll second) :=
  List.foldlM_append

theorem inspectAll_cons {i j : InternalTraceInspector} {event : TraceEvent}
    (h : i.inspect event = some j) (events : List TraceEvent) :
    i.inspectAll (event :: events) = j.inspectAll events := by
  rw [inspectAll, List.foldlM_cons, h]
  rfl

theorem inspectAll_of_append {i j : InternalTraceInspector} {first : List TraceEvent}
    (h : i.inspectAll first = some j) (second : List TraceEvent) :
    i.inspectAll (first ++ second) = j.inspectAll second := by
  rw [inspectAll_append, h, Option.bind_some]

-- the next position only matters while there is room, and then no counter is at its limit
theorem Stands.capture_listed (h : Stands i top stack next outer)
    (entries : List (List Nat × (TraceAction ⊕ Selfdestruct))) (path : List Nat)
    (rest : TraceForest) :
    capture (capture i.traces (drafts i.blockNumber i.txIndex entries))
        (drafts i.blockNumber i.txIndex (rest.listed path (saturatingAdd u32Max next 1))) =
      capture i.traces
        (drafts i.blockNumber i.txIndex (entries ++ rest.listed path (next + 1))) := by
  by_cases hroom : i.traces.length < maxInternalTracesPerTx
  · rw [h.next_lt hroom, ← capture_append, drafts_append]
  · rw [capture_of_full hroom, capture_of_full hroom, capture_of_full hroom]

theorem Stands.inspectAll_walk (h : Stands i top stack next outer) (forest : TraceForest) :
    ∃ last, i.inspectAll forest.walk = some (i.walked (top.getD []) next last outer forest) := by
  induction forest generalizing i top stack next outer with
  | nil =>
      refine ⟨next, congrArg some ?_⟩
      rw [walked, Forest.listed, drafts, List.map_nil, capture_nil, ← h.counters, Forest.size,
        saturatingAdd, Nat.add_zero, Nat.min_eq_left h.counted]
  | node action children rest ihChildren ihRest =>
      obtain ⟨lastChild, hchildren⟩ := ihChildren (h.opened action)
      obtain ⟨last, hrest⟩ := ihRest (h.closed action children)
      refine ⟨last, ?_⟩
      rw [Option.getD_some] at hchildren
      rw [Forest.walk, inspectAll_cons (h.inspect_opens action), inspectAll_of_append hchildren,
        inspectAll_cons (h.inspect_closes action children lastChild), hrest]
      simp only [walked, InternalTraceInspector.closed, Option.some.injEq,
        InternalTraceInspector.mk.injEq, true_and, Forest.listed, ← List.cons_append, h.capture_listed]
      simp only [saturatingAdd, Forest.size]
      omega
  | leaf selfdestruct rest ihRest =>
      obtain ⟨last, hrest⟩ := ihRest (h.destroyed selfdestruct)
      refine ⟨last, ?_⟩
      rw [Forest.walk, inspectAll_cons (h.inspect_meets selfdestruct), hrest]
      simp only [walked, InternalTraceInspector.destroyed, Option.some.injEq,
        InternalTraceInspector.mk.injEq, true_and, h.capture_listed, Forest.listed]
      refine ⟨rfl, ?_⟩
      simp only [saturatingAdd, Forest.size]
      omega

theorem Stands.inspectAll_outside {forest inside : TraceForest} {outside after : List TraceEvent}
    {action : TraceAction} (h : Stands i top stack next outer)
    (henclosed : Forest.Encloses forest outside action inside after) :
    ∃ started top' stack' next' outer', i.inspectAll outside = some started ∧
      Stands started top' stack' next' outer' := by
  induction henclosed generalizing i top stack next outer with
  | here label children rest => exact ⟨i, top, stack, next, outer, rfl, h⟩
  | inChildren label rest henclosed ih =>
      obtain ⟨started, top', stack', next', outer', hrun, hstands⟩ := ih (h.opened label)
      exact ⟨started, top', stack', next', outer',
        (inspectAll_cons (h.inspect_opens label) _).trans hrun, hstands⟩
  | inRest label children henclosed ih =>
      obtain ⟨started, top', stack', next', outer', hrun, hstands⟩ := ih (h.closed label children)
      obtain ⟨lastChild, hchildren⟩ := (h.opened label).inspectAll_walk children
      refine ⟨started, top', stack', next', outer', ?_, hstands⟩
      rw [Option.getD_some] at hchildren
      rw [inspectAll_cons (h.inspect_opens label), inspectAll_of_append hchildren,
        inspectAll_cons (h.inspect_closes label children lastChild), hrun]
  | afterLeaf label henclosed ih =>
      obtain ⟨started, top', stack', next', outer', hrun, hstands⟩ := ih (h.destroyed label)
      exact ⟨started, top', stack', next', outer',
        (inspectAll_cons (h.inspect_meets label) _).trans hrun, hstands⟩

-- the record that a start event pushed is the only one its end event changes
structure EndsOwn (action : TraceAction) (started ended done : InternalTraceInspector) : Prop where
  captured : started.traces.length < maxInternalTracesPerTx → ∃ own later,
    (started.inspect (.opens action)).map traces = some (started.traces ++ [own]) ∧
    ended.traces = started.traces ++ own :: later ∧
    done.traces = started.traces ++ finishOf action own :: later
  dropped : ¬ started.traces.length < maxInternalTracesPerTx →
    (started.inspect (.opens action)).map traces = some started.traces ∧
    done.traces = ended.traces

theorem Stands.endsOwn (h : Stands i top stack next outer) (action : TraceAction)
    (inside : TraceForest) :
    ∃ ended done, i.inspectAll (.opens action :: inside.walk) = some ended ∧
      ended.inspect (.closes action) = some done ∧ EndsOwn action i ended done := by
  obtain ⟨last, hinside⟩ := (h.opened action).inspectAll_walk inside
  rw [Option.getD_some] at hinside
  refine ⟨_, _, (inspectAll_cons (h.inspect_opens action) _).trans hinside,
    h.inspect_closes action inside last, ?_, ?_⟩
  · intro hroom
    refine ⟨⟨top.getD [] ++ [next], pending i.blockNumber i.txIndex (top.getD [] ++ [next]) action⟩,
      (drafts i.blockNumber i.txIndex (inside.listed (top.getD [] ++ [next]) 0)).take
        (maxInternalTracesPerTx - (i.traces.length + 1)), ?_, ?_, ?_⟩
    · rw [h.inspect_opens, Option.map_some, InternalTraceInspector.opened, capture_cons hroom,
        capture_nil]
    · rw [walked, InternalTraceInspector.opened, capture_cons hroom, capture_nil, capture,
        List.append_assoc, List.singleton_append, List.length_append, List.length_singleton]
    · rw [finishOf_pending, InternalTraceInspector.closed, drafts_cons, capture_cons hroom, capture,
        List.append_assoc, List.singleton_append, List.length_append, List.length_singleton]
  · intro hroom
    constructor
    · rw [h.inspect_opens, Option.map_some, InternalTraceInspector.opened, capture_of_full hroom]
    · rw [walked, InternalTraceInspector.opened, InternalTraceInspector.closed,
        capture_of_full hroom, capture_of_full hroom, capture_of_full hroom]

-- a transaction's own frame has no id
def entered (blockNumber : UInt64) (txIndex : UInt32) : InternalTraceInspector :=
  { new blockNumber txIndex with
    frameChildren := [0, 1]
    activePaths := [none] }

theorem inspect_root (blockNumber : UInt64) (txIndex : UInt32) (root : TraceAction) :
    (new blockNumber txIndex).inspect (.opens root) = some (entered blockNumber txIndex) := by
  rw [InternalTraceInspector.inspect_opens]
  rfl

theorem stands_entered (blockNumber : UInt64) (txIndex : UInt32) :
    Stands (entered blockNumber txIndex) none [] 0 [1] where
  active := rfl
  counters := rfl
  earlier _ hitem := absurd hitem List.not_mem_nil
  spare _ := Nat.zero_le _
  fits := Nat.zero_le _
  counted := Nat.zero_le _

theorem inspectAll_transaction (blockNumber : UInt64) (txIndex : UInt32) (root : TraceAction)
    (body : TraceForest) :
    (new blockNumber txIndex).inspectAll (Forest.node root body .nil).walk = some
      { new blockNumber txIndex with
        frameChildren := [1]
        traces := (drafts blockNumber txIndex (body.listed [] 0)).take maxInternalTracesPerTx
        totalCount := min body.size u32Max } := by
  obtain ⟨last, hbody⟩ := (stands_entered blockNumber txIndex).inspectAll_walk body
  rw [Forest.walk, inspectAll_cons (inspect_root blockNumber txIndex root),
    inspectAll_of_append hbody, Forest.walk, inspectAll,
    List.foldlM_cons, InternalTraceInspector.inspect_closes]
  simp [finishAction, walked, entered, new, capture, saturatingAdd]

end InternalTraceInspector

end Kasane.Exec.Trace
