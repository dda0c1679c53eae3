import Kasane.Indexer.Holds

namespace Kasane.Indexer

open BigEndian SegmentStream
open Export (ExportChunk ExportCursor)

variable {Segment Segment' : Nat → Nat → Bytes → Prop} {first b : Nat} {blind : Prop}

structure Commits (Segment : Nat → Nat → Bytes → Prop) (first b : Nat)
    (committed : List CommittedBlock) : Prop where
  first_le : first ≤ b
  numbers : committed.map CommittedBlock.blockNumber = List.range' first (b - first)
  payloads : ∀ x ∈ committed, Assembled Segment x.blockNumber x.payloads

theorem commits_nil (first : Nat) : Commits Segment first first [] where
  first_le := Nat.le_refl first
  numbers := by
    rw [Nat.sub_self]
    rfl
  payloads := fun x hx => absurd hx List.not_mem_nil

theorem Commits.mono {committed : List CommittedBlock} (h : Commits Segment first b committed)
    (hsegment : ∀ b k data, Segment b k data → Segment' b k data) :
    Commits Segment' first b committed := by
  refine ⟨h.first_le, h.numbers, ?_⟩
  intro x hx
  obtain ⟨block, receipts, txIndex, traces, h₀, h₁, h₂, h₃, heq⟩ := h.payloads x hx
  exact ⟨block, receipts, txIndex, traces, hsegment _ _ _ h₀, hsegment _ _ _ h₁, hsegment _ _ _ h₂,
    hsegment _ _ _ h₃, heq⟩

theorem Commits.snoc {committed : List CommittedBlock} {payloads : List Bytes}
    (h : Commits Segment first b committed) (hpayloads : Assembled Segment b payloads) :
    Commits Segment first (b + 1) (committed ++ [⟨b, payloads⟩]) := by
  have hle := h.first_le
  refine ⟨Nat.le_succ_of_le hle, ?_, ?_⟩
  · have hcount : b + 1 - first = b - first + 1 := by omega
    have hlast : first + 1 * (b - first) = b := by omega
    rw [List.map_append, h.numbers, hcount, List.range'_concat, hlast]
    rfl
  · intro x hx
    rcases List.mem_append.mp hx with hold | hnew
    · exact h.payloads x hold
    · rw [List.mem_singleton] at hnew
      subst hnew
      exact hpayloads

def StreamState.pendingAt (x : StreamState) (q : Position) : Pending :=
  x.activePending.getD (emptyPending q.segment q.offset)

-- a worker that came without a cursor learns its block by completing the first one
structure Stands (Segment : Nat → Nat → Bytes → Prop) (first : Nat) (blind : Prop)
    (x : StreamState) (q : Position) : Prop where
  holds : Holds Segment q.block (x.pendingAt q)
  segment : (x.pendingAt q).segment = q.segment
  offset : (x.pendingAt q).offset = q.offset
  cursor : x.streamCursor = some ⟨q.block, q.segment, q.offset⟩ ∨
    x.streamCursor = none ∧ blind ∧ q.block = first ∧ ∃ data, Segment q.block 3 data ∧ data ≠ []
  commits : Commits Segment first q.block x.committed

theorem Stands.mono {x : StreamState} {q : Position} (h : Stands Segment first blind x q)
    (hsegment : ∀ b k data, Segment b k data → Segment' b k data) : Stands Segment' first blind x q := by
  refine ⟨h.holds.mono (hsegment q.block), h.segment, h.offset, ?_, h.commits.mono hsegment⟩
  rcases h.cursor with hsome | ⟨hnone, hblind, hfirst, data, hdata, hne⟩
  · exact .inl hsome
  · exact .inr ⟨hnone, hblind, hfirst, data, hsegment _ _ _ hdata, hne⟩

def after (q : Position) (n len : Nat) : Position :=
  if q.offset + n = len then
    if q.segment = 3 then ⟨q.block + 1, 0, 0⟩ else ⟨q.block, q.segment + 1, 0⟩
  else ⟨q.block, q.segment, q.offset + n⟩

theorem stands_commitAt {committed : List CommittedBlock} {payloads : List Bytes} {x : StreamState}
    (hcommitted : x.committed = committed) (h : Commits Segment first b committed)
    (hpayloads : Assembled Segment b payloads) :
    Stands Segment first blind (commitAt x b payloads) ⟨b + 1, 0, 0⟩ := by
  refine ⟨holds_emptyPending, rfl, rfl, .inl rfl, ?_⟩
  rw [commitAt, hcommitted]
  exact h.snoc hpayloads

theorem Stands.openNextChunk {x : StreamState} {next : Option ExportChunk}
    (h : Stands Segment first blind x ⟨b, 0, 0⟩) (hcursor : x.streamCursor = some ⟨b, 0, 0⟩)
    (hnext : ∀ chunk, next = some chunk → chunk.segment = 0 ∧ chunk.start = 0) :
    ∃ y, openNextChunk x next = .ok y ∧ Stands Segment first blind y ⟨b, 0, 0⟩ := by
  cases next with
  | none => exact ⟨x, rfl, h⟩
  | some chunk =>
      obtain ⟨hseg, hstart⟩ := hnext chunk rfl
      have hpending : newPendingFromChunk chunk = emptyPending 0 0 := by
        rw [newPendingFromChunk, hseg, hstart]
        rfl
      refine ⟨_, by rw [Indexer.openNextChunk, hcursor], ?_⟩
      rw [hpending, hseg, hstart]
      exact ⟨holds_emptyPending, rfl, rfl, .inl rfl, h.commits⟩

section

variable (functional : ∀ b k data data', Segment b k data → Segment b k data' → data = data')
  (numbered : ∀ b data, Segment b 0 data → decodeBlockNumber data = .ok b)

include numbered in
theorem commitActivePending_ok {x : StreamState} {p : Pending} {k o : Nat}
    (hp : Finished Segment b p) (hcursor : x.streamCursor = some ⟨b, k, o⟩ ∨ x.streamCursor = none)
    (h : Commits Segment first b x.committed) :
    ∃ y, commitActivePending { x with activePending := some p } = .ok y ∧
      Stands Segment first blind y ⟨b + 1, 0, 0⟩ ∧ y.streamCursor = some ⟨b + 1, 0, 0⟩ ∧
        y.activePending = none := by
  obtain ⟨payloads, hassembled, hfinal⟩ := hp.finalizePayloads
  have hrun : commitActivePending { x with activePending := some p } =
      .ok (commitAt { x with activePending := some p } b payloads) := by
    obtain ⟨block, receipts, txIndex, traces, hblock, -, -, -, rfl⟩ := hassembled
    have hsame : x.streamCursor.any (fun cursor => decide (b ≠ cursor.blockNumber)) = false := by
      rcases hcursor with hsome | hnone
      · rw [hsome]
        exact decide_eq_false (not_not_intro rfl)
      · rw [hnone]
        rfl
    rw [commitActivePending]
    simp only [hfinal, bind, Except.bind]
    rw [List.headD_cons, numbered b block hblock]
    dsimp only
    rw [hsame]
    rfl
  exact ⟨_, hrun, stands_commitAt rfl h hassembled, rfl, rfl⟩

variable {x : StreamState} {q : Position} {data : Bytes} {n : Nat}

theorem Stands.checkPosition_ok (h : Stands Segment first blind x q) (isFirstChunk : Bool) (bytes : Bytes)
    (len : Nat) : checkPosition x.streamCursor isFirstChunk (x.pendingAt q)
      ⟨q.segment, q.offset, bytes, len⟩ = .ok () := by
  rcases h.cursor with hsome | ⟨hnone, -⟩
  · rw [hsome, checkPosition]
    exact if_neg (by simp)
  · rw [hnone, checkPosition]
    exact if_neg (by simp [h.segment, h.offset])

include functional numbered in
theorem Stands.consumeAt (h : Stands Segment first blind x q) (hdata : Segment q.block q.segment data)
    (hbound : q.offset + n ≤ data.length) (hprogress : n = 0 → q.offset = data.length)
    {next : Option ExportChunk} (hnext : q.segment = 3 → q.offset + n = data.length →
      ∀ chunk, next = some chunk → chunk.segment = 0 ∧ chunk.start = 0) (isFirstChunk : Bool) :
    ∃ y, consumeAt isFirstChunk x ⟨q.segment, q.offset, (data.drop q.offset).take n, data.length⟩
      next = .ok y ∧ Stands Segment first blind y (after q n data.length) := by
  have hpending : x.activePending.getD (newPendingFromChunk
      ⟨q.segment, q.offset, (data.drop q.offset).take n, data.length⟩) = x.pendingAt q := rfl
  have hcheck := h.checkPosition_ok isFirstChunk ((data.drop q.offset).take n) data.length
  obtain ⟨hholds, hseg, hoffset, hcursor, hcommits⟩ := h
  generalize x.pendingAt q = p at hpending hcheck hholds hseg hoffset
  rw [← hseg] at hdata
  rw [← hoffset] at hbound hprogress
  have happly := hholds.applyChunk_eq functional hdata hbound hprogress
  rw [hseg, hoffset] at happly
  rw [Indexer.consumeAt, hpending, hcheck]
  simp only [bind, Except.bind]
  rw [happly]
  dsimp only
  rw [after, ← hoffset]
  by_cases hend : p.offset + n = data.length
  · rw [if_pos hend]
    by_cases hlast : q.segment = 3
    · -- the block is complete
      rw [if_pos hlast]
      have hfinished := hholds.finishes functional hdata hend (hseg.trans hlast)
      have hcursor' : x.streamCursor = some ⟨q.block, q.segment, q.offset⟩ ∨
          x.streamCursor = none := hcursor.imp_right And.left
      obtain ⟨y, hcommit, hstands, hmoved, -⟩ := commitActivePending_ok numbered hfinished hcursor' hcommits
      obtain ⟨z, hopen, hstands'⟩ := hstands.openNextChunk hmoved
        (hnext hlast (by rw [← hoffset]; exact hend))
      refine ⟨z, ?_, hstands'⟩
      rw [if_pos hfinished.complete, hcommit]
      exact hopen
    · rw [if_neg hlast]
      obtain ⟨hholds', hseg', hoffset'⟩ := hholds.leaves functional hdata hend (by rw [hseg]; exact hlast)
      rw [if_neg (by simp [hholds'.incomplete])]
      refine ⟨_, rfl, hholds', hseg'.trans (by rw [hseg]), hoffset', ?_, hcommits⟩
      rcases hcursor with hsome | ⟨hnone, hfirst⟩
      · left
        dsimp only
        rw [hsome, Option.map_some, hseg', hoffset', hseg]
      · right
        dsimp only
        rw [hnone]
        exact ⟨rfl, hfirst⟩
  · rw [if_neg hend]
    have hshort : (p.takes data n).offset ≠ data.length := hend
    have hholds' := hholds.within functional hdata (lt_of_le_of_ne hbound hend)
    rw [leaveSegment, if_neg hshort] at hholds' ⊢
    rw [if_neg (by simp [hholds'.incomplete])]
    refine ⟨_, rfl, hholds', hseg, rfl, ?_, hcommits⟩
    rcases hcursor with hsome | ⟨hnone, hfirst⟩
    · left
      dsimp only
      rw [hsome, ← hseg]
      rfl
    · right
      dsimp only
      rw [hnone]
      exact ⟨rfl, hfirst⟩

-- where the next chunk may start: the empty last segment of a block has no chunk of its own
def Lag (Segment : Nat → Nat → Bytes → Prop) (q s : Position) : Prop :=
  s = q ∨ q.segment = 3 ∧ q.offset = 0 ∧ Segment q.block 3 [] ∧ s = ⟨q.block + 1, 0, 0⟩

def Solid (Segment : Nat → Nat → Bytes → Prop) : Prop :=
  ∀ b k data, Segment b k data → k < 3 → data ≠ []

theorem Stands.closesBlock_self (h : Stands Segment first blind x q) (p : Pending) (bytes : Bytes)
    (len : Nat) : closesBlock x.streamCursor p ⟨q.segment, q.offset, bytes, len⟩ = false := by
  rcases h.cursor with hsome | ⟨hnone, -⟩
  · rw [hsome, closesBlock, Option.any_some]
    exact decide_eq_false (by simp)
  · rw [hnone]
    rfl

theorem Stands.past_pos (h : Stands Segment first blind x q) (solid : Solid Segment)
    (hseg : q.segment = 3) : (x.pendingAt q).payloadLens 0 > 0 := by
  obtain ⟨block, hblock, hlen, -⟩ := h.holds.past 0 (by rw [h.segment, hseg]; exact Nat.succ_pos 2)
  rw [hlen]
  exact List.length_pos_of_ne_nil (solid _ _ _ hblock (Nat.succ_pos 2))

theorem Stands.pending_some (h : Stands Segment first blind x q) (solid : Solid Segment)
    (hseg : q.segment = 3) : x.activePending = some (x.pendingAt q) := by
  have hpos := h.past_pos solid hseg
  rw [StreamState.pendingAt] at hpos ⊢
  cases hactive : x.activePending with
  | none =>
      rw [hactive] at hpos
      exact absurd hpos (lt_irrefl 0)
  | some p => rfl

include functional numbered in
theorem Stands.consumeChunk (h : Stands Segment first blind x q) (solid : Solid Segment)
    {s : Position} (hlag : Lag Segment q s)
    (hdata : Segment s.block s.segment data) (hbound : s.offset + n ≤ data.length)
    (hprogress : n = 0 → s.offset = data.length)
    {next : Option ExportChunk} (hnext : s.segment = 3 → s.offset + n = data.length →
      ∀ chunk, next = some chunk → chunk.segment = 0 ∧ chunk.start = 0) (isFirstChunk : Bool) :
    ∃ y, consumeChunk isFirstChunk x
      ⟨s.segment, s.offset, (data.drop s.offset).take n, data.length⟩ next = .ok y ∧
        Stands Segment first blind y (after s n data.length) := by
  rcases hlag with rfl | ⟨hlast, hzero, hempty, rfl⟩
  · have hsame : Stands Segment first blind { x with activePending := some (x.pendingAt s) } s :=
      ⟨h.holds, h.segment, h.offset, h.cursor, h.commits⟩
    obtain ⟨y, hrun, hstands⟩ := hsame.consumeAt functional numbered hdata hbound hprogress hnext
      isFirstChunk
    refine ⟨y, ?_, hstands⟩
    rw [Indexer.consumeChunk, if_neg (by rw [h.closesBlock_self]; simp)]
    exact hrun
  · -- the worker waits in the empty segment of a block the stream has left
    have hactive := h.pending_some solid hlast
    have hpos := h.past_pos solid hlast
    have hseg := h.segment.trans hlast
    have hoffset := h.offset.trans hzero
    have hcursor : x.streamCursor = some ⟨q.block, q.segment, q.offset⟩ := by
      apply h.cursor.resolve_right
      rintro ⟨-, -, -, traces, htraces, hne⟩
      exact hne (functional _ _ _ _ htraces hempty)
    have hfinished := h.holds.closes functional hseg hoffset hempty
    obtain ⟨y, hcommit, hstands, -, hnone⟩ := commitActivePending_ok numbered hfinished (.inl hcursor)
      h.commits
    obtain ⟨z, hrun, hstands'⟩ := hstands.consumeAt functional numbered hdata hbound hprogress hnext
      isFirstChunk
    refine ⟨z, ?_, hstands'⟩
    have hcloses : closesBlock x.streamCursor (x.pendingAt q)
        ⟨0, 0, (data.drop 0).take n, data.length⟩ = true := by
      rw [hcursor, closesBlock, Option.any_some]
      apply decide_eq_true
      refine ⟨.inl ?_, hpos, ?_, hoffset, rfl, rfl⟩
      · show 0 ≠ q.segment
        rw [hlast]
        exact Nat.zero_ne_add_one 2
      · rw [hseg]
        exact Nat.succ_pos 2
    rw [Indexer.consumeChunk, hactive, Option.getD_some, if_pos hcloses]
    simp only [bind, Except.bind]
    rw [hcommit]
    exact hrun

-- where the worker stands once the stream has reached `p`
def Settled (Segment : Nat → Nat → Bytes → Prop) (p q : Position) : Prop :=
  ∃ data, Segment p.block p.segment data ∧ q = after p 0 data.length

theorem after_zero (p : Position) (len : Nat) : after p 0 len =
    if p.offset = len then
      if p.segment = 3 then ⟨p.block + 1, 0, 0⟩ else ⟨p.block, p.segment + 1, 0⟩
    else p := rfl

include functional in
theorem Settled.silent {p s : Position} (h : Settled Segment p q)
    (hsilent : Silent Segment 3 p s)
    (hstay : s = p → ∀ data, Segment p.block p.segment data → p.offset ≠ data.length) :
    Lag Segment q s := by
  obtain ⟨data, hdata, rfl⟩ := h
  cases hsilent with
  | stay =>
      left
      rw [after_zero, if_neg (hstay rfl data hdata)]
  | nextSegment hdata' hended hbelow =>
      obtain rfl := functional _ _ _ _ hdata hdata'
      left
      rw [after_zero, if_pos hended, if_neg (Nat.ne_of_lt hbelow)]
  | nextBlock hdata' hended hfinal =>
      obtain rfl := functional _ _ _ _ hdata hdata'
      left
      rw [after_zero, if_pos hended, if_pos hfinal]
  | emptyLast hdata' hended hbefore hempty =>
      obtain rfl := functional _ _ _ _ hdata hdata'
      right
      have hbelow : p.segment ≠ 3 := by omega
      rw [after_zero, if_pos hended, if_neg hbelow]
      exact ⟨hbefore, rfl, hempty, rfl⟩

include functional in
theorem inside_of_eq {p s : Position} (hdata : Segment s.block s.segment data)
    (hinside : s.offset < data.length) :
    s = p → ∀ data, Segment p.block p.segment data → p.offset ≠ data.length := by
  rintro rfl data' hdata' hended
  obtain rfl := functional _ _ _ _ hdata hdata'
  omega

theorem startsNext {p : Position} {s : Piece UInt8} {out : List (Piece UInt8)} {r : Position}
    (solid : Solid Segment) (h : Streams Segment 3 p (s :: out) r) (hlast : p.segment = 3)
    (hdata : Segment p.block p.segment data) (hended : p.offset = data.length)
    (functional : ∀ b k data data', Segment b k data → Segment b k data' → data = data')
    (hitems : s.items ≠ []) : s.segment = 0 ∧ s.start = 0 := by
  obtain ⟨data', n, hsilent, hdata', heq, -, hbound, hprogress, -⟩ := h.uncons
  generalize hs : (⟨s.block, s.segment, s.start⟩ : Position) = t at hsilent
  cases hsilent.silent (Nat.succ_pos 2) solid with
  | stay =>
      subst hs
      obtain rfl := functional _ _ _ _ hdata hdata'
      dsimp only at hended
      rw [hended, List.drop_length, List.take_nil] at heq
      exact absurd heq hitems
  | nextSegment _ _ hbelow => omega
  | nextBlock => exact ⟨congrArg Position.segment hs, congrArg Position.offset hs⟩
  | emptyLast _ _ hbefore => omega

include functional numbered in
theorem Stands.consumeChunks {p r : Position} {out : List (Piece UInt8)}
    (h : Stands Segment first blind x q) (solid : Solid Segment)
    (hsettled : Settled Segment p q)
    (hstreams : Streams Segment 3 p out r) (hitems : ∀ s ∈ out, s.items ≠ []) :
    ∃ y q' p', consumeChunks false x (out.map chunkOf) = .ok y ∧ Stands Segment first blind y q' ∧
      Settled Segment p' q' ∧ Streams Segment 3 p' [] r ∧ (p' = p ∧ out = [] ∨ 0 < p'.offset) := by
  induction out generalizing x p q with
  | nil => exact ⟨x, q, p, rfl, h, hsettled, hstreams, .inl ⟨rfl, rfl⟩⟩
  | cons s out ih =>
      obtain ⟨data, n, hbefore, hdata, hcut, hsize, hbound, hprogress, hrest⟩ := hstreams.uncons
      have hitem := hitems s (List.mem_cons_self ..)
      have hpos : 0 < n := by
        apply Nat.pos_of_ne_zero
        rintro rfl
        rw [List.take_zero] at hcut
        exact hitem hcut
      have hsilent := hbefore.silent (Nat.succ_pos 2) solid
      have hinside : s.start < data.length := by omega
      have hlag := hsettled.silent functional hsilent (inside_of_eq functional hdata hinside)
      have hnext : s.segment = 3 → s.start + n = data.length →
          ∀ chunk, (out.map chunkOf).head? = some chunk → chunk.segment = 0 ∧ chunk.start = 0 := by
        intro hlast hended chunk hchunk
        cases out with
        | nil => exact absurd hchunk (by simp)
        | cons s' out =>
            obtain rfl := Option.some.inj hchunk
            have hsolid := hitems s' (List.mem_cons_of_mem _ (List.mem_cons_self ..))
            exact startsNext solid hrest hlast hdata hended functional hsolid
      obtain ⟨y, hrun, hstands⟩ := h.consumeChunk functional numbered solid hlag hdata hbound
        hprogress hnext false
      obtain ⟨z, q', p', hrun', hstands', hsettled', hstreams', hmoved⟩ := ih hstands
        ⟨data, hdata, rfl⟩ hrest (fun s' hs' => hitems s' (List.mem_cons_of_mem _ hs'))
      refine ⟨z, q', p', ?_, hstands', hsettled', hstreams', .inr ?_⟩
      · rw [List.map_cons, chunkOf, hcut, hsize, Indexer.consumeChunks]
        simp only [bind, Except.bind]
        rw [hrun]
        exact hrun'
      · rcases hmoved with ⟨rfl, -⟩ | hpos'
        · exact Nat.lt_of_lt_of_le hpos (Nat.le_add_left n s.start)
        · exact hpos'

include functional numbered in
theorem Stands.finishResponse {r : Position} (h : Stands Segment first blind x q) (solid : Solid Segment)
    (hlag : Lag Segment q r) (hfirst : blind → first < r.block) :
    ∃ y, finishResponse x ⟨r.block, r.segment, r.offset⟩ = .ok y ∧ Stands Segment first blind y r ∧
      y.streamCursor = some ⟨r.block, r.segment, r.offset⟩ := by
  rcases hlag with rfl | ⟨hlast, hzero, hempty, rfl⟩
  · have hcursor : x.streamCursor = some ⟨r.block, r.segment, r.offset⟩ := by
      apply h.cursor.resolve_right
      rintro ⟨-, hblind, heq, -⟩
      have hlt := hfirst hblind
      omega
    have hopen : closesTail x ⟨r.block, r.segment, r.offset⟩ = false := by
      rw [closesTail, hcursor]
      cases x.activePending with
      | none => rfl
      | some p => exact decide_eq_false (by simp)
    refine ⟨x, ?_, h, hcursor⟩
    rw [Indexer.finishResponse, if_neg (by rw [hopen]; simp)]
    simp only [bind, Except.bind]
    rw [hcursor]
    exact if_neg (not_not_intro rfl)
  · have hactive := h.pending_some solid hlast
    have hpos := h.past_pos solid hlast
    have hseg := h.segment.trans hlast
    have hoffset := h.offset.trans hzero
    have hcursor : x.streamCursor = some ⟨q.block, q.segment, q.offset⟩ := by
      apply h.cursor.resolve_right
      rintro ⟨-, -, -, traces, htraces, hne⟩
      exact hne (functional _ _ _ _ htraces hempty)
    have hcloses : closesTail x ⟨q.block + 1, 0, 0⟩ = true := by
      rw [closesTail, hcursor, hactive]
      apply decide_eq_true
      refine ⟨h.holds.incomplete, hpos, ?_, hoffset, rfl⟩
      rw [hseg]
      exact Nat.succ_pos 2
    have hfinished := h.holds.closes functional hseg hoffset hempty
    obtain ⟨y, hcommit, hstands, hmoved, -⟩ := commitActivePending_ok numbered hfinished (.inl hcursor)
      h.commits
    refine ⟨y, ?_, hstands, hmoved⟩
    rw [Indexer.finishResponse, if_pos hcloses, hactive, Option.map_some]
    simp only [bind, Except.bind]
    rw [hcommit]
    dsimp only
    rw [hmoved]
    exact if_neg (not_not_intro rfl)

end

end Kasane.Indexer
