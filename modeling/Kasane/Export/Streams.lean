import Kasane.Export.Blocks
import Kasane.Lib.SegmentStream

namespace Kasane.Export

open BigEndian Codec Word Chain SegmentStream

variable {W : Type} {c : Crypto} {s t : StableState W}

def SegmentOf (c : Crypto) (s : StableState W) (b k : Nat) (data : Bytes) : Prop :=
  ∃ p, BlockPayloads.load s b = .ok p ∧ p.segmentSlice c s k = .ok data

theorem segmentOf_functional (b k : Nat) (data data' : Bytes) (h : SegmentOf c s b k data)
    (h' : SegmentOf c s b k data') : data = data' := by
  obtain ⟨p, hp, hdata⟩ := h
  obtain ⟨p', hp', hdata'⟩ := h'
  obtain rfl := Except.ok.inj (hp.symm.trans hp')
  exact Except.ok.inj (hdata.symm.trans hdata')

def ExportCursor.position (cursor : ExportCursor) : Position :=
  ⟨cursor.blockNumber, cursor.segment, cursor.byteOffset⟩

def ExportChunk.startsBlock (chunk : ExportChunk) : Bool :=
  decide (chunk.segment = 0 ∧ chunk.start = 0)

-- a response does not name its blocks: a chunk at the start of segment 0 opens the next one
def placeChunk (x : Nat × List (Piece UInt8)) (chunk : ExportChunk) : Nat × List (Piece UInt8) :=
  let b := if chunk.startsBlock ∧ x.2 ≠ [] then x.1 + 1 else x.1
  (b, x.2 ++ [⟨b, chunk.segment, chunk.start, chunk.bytes, chunk.payloadLen⟩])

def placeChunks (b : Nat) (chunks : List ExportChunk) : Nat × List (Piece UInt8) :=
  chunks.foldl placeChunk (b, [])

def placed (b : Nat) (chunks : List ExportChunk) : List (Piece UInt8) := (placeChunks b chunks).2

theorem placeChunks_snoc (b : Nat) (chunks : List ExportChunk) (chunk : ExportChunk) :
    placeChunks b (chunks ++ [chunk]) = placeChunk (placeChunks b chunks) chunk := by
  rw [placeChunks, List.foldl_append]
  rfl

theorem placed_eq_nil {b : Nat} {chunks : List ExportChunk} (h : placed b chunks = []) :
    chunks = [] := by
  rcases List.eq_nil_or_concat' chunks with rfl | ⟨chunks, chunk, rfl⟩
  · rfl
  · rw [placed, placeChunks_snoc] at h
    exact absurd h (by simp [placeChunk])

theorem emittedBytes_snoc (chunks : List ExportChunk) (chunk : ExportChunk) :
    emittedBytes (chunks ++ [chunk]) = emittedBytes chunks + chunk.bytes.length := by
  simp [emittedBytes]

theorem items_placed (b : Nat) (chunks : List ExportChunk) :
    ((placed b chunks).flatMap Piece.items).length = emittedBytes chunks := by
  induction chunks using List.reverseRecOn with
  | nil => rfl
  | append_singleton chunks chunk ih =>
      rw [emittedBytes_snoc, ← ih, placed, placeChunks_snoc, placeChunk, placed]
      simp

theorem segmentLen_ok {p : BlockPayloads} {k len : Nat} (h : p.segmentLen c s k = .ok len) :
    ∃ data, p.segmentSlice c s k = .ok data ∧ len = data.length ∧ data.length ≤ maxSegmentLen := by
  obtain ⟨data, hdata, hlen⟩ := bind_eq_ok.mp h
  refine ⟨data, hdata, ?_⟩
  rw [checkedSegmentLen] at hlen
  split_ifs at hlen with h₁ h₂ h₃
  exact ⟨(Except.ok.inj hlen).symm, not_lt.mp h₃⟩

-- where the last placed chunk stands when the loop is about to emit at a segment and an offset
def Following (origin : Position) (b seg offset : Nat) (fresh : Bool) (chunks : List ExportChunk) :
    Prop :=
  if fresh then
    (chunks = [] ∧ origin = ⟨b, seg, offset⟩) ∨
      (b = (placeChunks origin.block chunks).1 + 1 ∧ seg = 0 ∧ offset = 0 ∧
        placed origin.block chunks ≠ [])
  else (placeChunks origin.block chunks).1 = b ∧ placed origin.block chunks ≠ [] ∧
    (0 < seg ∨ 0 < offset)

theorem Following.place {origin : Position} {b seg offset : Nat} {fresh : Bool}
    {chunks : List ExportChunk} (h : Following origin b seg offset fresh chunks) (bytes : Bytes)
    (len : Nat) : placeChunks origin.block (chunks ++ [⟨seg, offset, bytes, len⟩]) =
      (b, placed origin.block chunks ++ [⟨b, seg, offset, bytes, len⟩]) := by
  have hb : (if ExportChunk.startsBlock ⟨seg, offset, bytes, len⟩ ∧
      (placeChunks origin.block chunks).2 ≠ [] then (placeChunks origin.block chunks).1 + 1
        else (placeChunks origin.block chunks).1) = b := by
    cases fresh with
    | true =>
        rcases h with ⟨rfl, rfl⟩ | ⟨hnext, rfl, rfl, hne⟩
        · rw [if_neg (fun hboth => hboth.2 rfl)]
          rfl
        · rw [if_pos ⟨rfl, hne⟩, hnext]
    | false =>
        obtain ⟨hblock, -, hpast⟩ := h
        rw [if_neg, hblock]
        rintro ⟨hstarts, -⟩
        have hzero : seg = 0 ∧ offset = 0 := of_decide_eq_true hstarts
        omega
  rw [placeChunks_snoc, placeChunk]
  dsimp only
  rw [hb]
  rfl

theorem Following.first {origin : Position} {b seg offset : Nat} {fresh : Bool}
    {chunks : List ExportChunk} (h : Following origin b seg offset fresh chunks)
    (hnil : chunks = []) : seg = origin.segment ∧ offset = origin.offset := by
  subst hnil
  cases fresh with
  | true =>
      rcases h with ⟨-, rfl⟩ | ⟨-, -, -, hne⟩
      · exact ⟨rfl, rfl⟩
      · exact absurd rfl hne
  | false => exact absurd rfl h.2.1

def Filled (c : Crypto) (s : StableState W) : Prop :=
  ∀ b data, SegmentOf c s b 0 data → data ≠ []

-- a response starts at its cursor, and only its first chunk may be an empty marker
structure Tidy (c : Crypto) (s : StableState W) (origin : Position) (chunks : List ExportChunk) :
    Prop where
  first : ∀ chunk, chunks.head? = some chunk →
    chunk.segment = origin.segment ∧ chunk.start = origin.offset
  solid : Filled c s → ∀ chunk ∈ chunks.tail, chunk.bytes ≠ []

theorem tidy_nil (origin : Position) : Tidy c s origin [] :=
  ⟨fun _ h => absurd h (by simp), fun _ _ h => absurd h List.not_mem_nil⟩

theorem Tidy.snoc {origin : Position} {chunks : List ExportChunk} {chunk : ExportChunk}
    (h : Tidy c s origin chunks)
    (hfirst : chunks = [] → chunk.segment = origin.segment ∧ chunk.start = origin.offset)
    (hsolid : chunks ≠ [] → Filled c s → chunk.bytes ≠ []) : Tidy c s origin (chunks ++ [chunk]) := by
  cases chunks with
  | nil =>
      refine ⟨?_, fun _ _ hmem => absurd hmem List.not_mem_nil⟩
      intro head hhead
      obtain rfl := Option.some.inj hhead
      exact hfirst rfl
  | cons head chunks =>
      refine ⟨h.first, ?_⟩
      intro hfilled other hmem
      rcases List.mem_append.mp hmem with hold | hnew
      · exact h.solid hfilled other hold
      · rw [List.mem_singleton] at hnew
        subst hnew
        exact hsolid (List.cons_ne_nil _ _) hfilled

theorem SegmentLoop.marker_keeps (x : SegmentLoop) (payloadLen : Nat) :
    (x.marker payloadLen).seg = x.seg ∧ (x.marker payloadLen).offset = x.offset ∧
      (x.marker payloadLen).isFirst = false := by
  rw [marker]
  split_ifs with hfirst
  · exact ⟨rfl, rfl, rfl⟩
  · exact ⟨rfl, rfl, by simpa using hfirst⟩

structure Emitting (c : Crypto) (s : StableState W) (origin : Position) (budget b : Nat)
    (x : SegmentLoop) : Prop where
  seg_le : x.seg ≤ 3
  started : x.blockStarted = !x.isFirst
  follows : Following origin b x.seg x.offset x.isFirst x.chunks
  streams : Streams (SegmentOf c s) 3 origin (placed origin.block x.chunks) ⟨b, x.seg, x.offset⟩
  tidy : Tidy c s origin x.chunks
  budget : x.remaining + emittedBytes x.chunks = budget

section

variable {origin : Position} {budget b : Nat} {p : BlockPayloads} {data : Bytes} {x : SegmentLoop}

theorem Emitting.emit (h : Emitting c s origin budget b x)
    (hload : BlockPayloads.load s b = .ok p) (hdata : p.segmentSlice c s x.seg = .ok data) {n : Nat}
    (hpos : 0 < n) (hn : n ≤ x.remaining) (hfit : x.offset + n ≤ data.length) :
    Emitting c s origin budget b (x.emit data n data.length) := by
  have hplace := h.follows.place ((data.drop x.offset).take n) data.length
  have hlen : ((data.drop x.offset).take n).length = n := by
    rw [List.length_take, List.length_drop]
    omega
  refine ⟨h.seg_le, rfl, ?_, ?_, ?_, ?_⟩
  · refine ⟨congrArg Prod.fst hplace, ?_, Or.inr ?_⟩
    · rw [placed, SegmentLoop.emit, hplace]
      simp
    · exact Nat.lt_of_lt_of_le hpos (Nat.le_add_left n x.offset)
  · have hstreams := h.streams.piece ⟨p, hload, hdata⟩ hfit (fun hzero => by omega)
    rw [placed, SegmentLoop.emit, hplace]
    exact hstreams
  · apply h.tidy.snoc h.follows.first
    intro _ _ hnil
    rw [← hlen] at hpos
    exact absurd (congrArg List.length hnil) (Nat.ne_of_gt hpos)
  · have hbudget := h.budget
    rw [SegmentLoop.emit, emittedBytes_snoc, hlen]
    dsimp only
    omega

theorem Emitting.nextSegment (h : Emitting c s origin budget b x)
    (hload : BlockPayloads.load s b = .ok p) (hdata : p.segmentSlice c s x.seg = .ok data)
    (hseg : x.seg ≠ 3) (hend : x.offset = data.length) (hstarted : x.isFirst = false) :
    Emitting c s origin budget b { x with seg := x.seg + 1, offset := 0 } := by
  have hbelow : x.seg < 3 := by
    have hle := h.seg_le
    omega
  have hfollows := h.follows
  rw [hstarted] at hfollows
  refine ⟨hbelow, h.started, ?_, ?_, h.tidy, h.budget⟩
  · dsimp only
    rw [hstarted]
    exact ⟨hfollows.1, hfollows.2.1, Or.inl (Nat.succ_pos x.seg)⟩
  · have hstreams := h.streams
    rw [hend] at hstreams
    exact hstreams.nextSegment ⟨p, hload, hdata⟩ hbelow

theorem Emitting.marker (h : Emitting c s origin budget b x)
    (hload : BlockPayloads.load s b = .ok p) (hdata : p.segmentSlice c s x.seg = .ok data)
    (hend : x.offset = data.length) :
    (x.seg = 3 → Emitting c s origin budget b (x.marker data.length)) ∧
      (x.seg ≠ 3 → Emitting c s origin budget b
        { x.marker data.length with seg := x.seg + 1, offset := 0 }) := by
  rw [SegmentLoop.marker]
  by_cases hfirst : x.isFirst = true
  · rw [if_pos hfirst]
    have hplace := h.follows.place [] data.length
    have hstreams : Streams (SegmentOf c s) 3 origin
        (placed origin.block (x.chunks ++ [⟨x.seg, x.offset, [], data.length⟩]))
          ⟨b, x.seg, x.offset⟩ := by
      have hpiece := h.streams.piece (n := 0) ⟨p, hload, hdata⟩ (le_of_eq hend) (fun _ => hend)
      rw [placed, hplace]
      exact hpiece
    have hbudget : x.remaining + emittedBytes (x.chunks ++ [⟨x.seg, x.offset, [], data.length⟩]) =
        budget := by
      rw [emittedBytes_snoc]
      exact h.budget
    have hne : placed origin.block (x.chunks ++ [⟨x.seg, x.offset, [], data.length⟩]) ≠ [] := by
      rw [placed, hplace]
      simp
    have htidy : Tidy c s origin (x.chunks ++ [⟨x.seg, x.offset, [], data.length⟩]) := by
      apply h.tidy.snoc h.follows.first
      intro hstarted hfilled
      have hfollows := h.follows
      rw [hfirst] at hfollows
      rcases hfollows with ⟨hnil, -⟩ | ⟨-, hseg, hoffset, -⟩
      · exact absurd hnil hstarted
      · rw [hseg] at hdata
        rw [hoffset] at hend
        exact absurd (List.eq_nil_of_length_eq_zero hend.symm) (hfilled b data ⟨p, hload, hdata⟩)
    refine ⟨fun hseg => ⟨h.seg_le, rfl, ?_, hstreams, htidy, hbudget⟩, fun hseg => ?_⟩
    · exact ⟨congrArg Prod.fst hplace, hne, Or.inl (by rw [hseg]; exact Nat.succ_pos 2)⟩
    · have hbelow : x.seg < 3 := by
        have hle := h.seg_le
        omega
      refine ⟨hbelow, rfl, ?_, ?_, htidy, hbudget⟩
      · exact ⟨congrArg Prod.fst hplace, hne, Or.inl (Nat.succ_pos x.seg)⟩
      · rw [hend] at hstreams
        dsimp only
        rw [hend]
        exact hstreams.nextSegment ⟨p, hload, hdata⟩ hbelow
  · rw [if_neg hfirst]
    exact ⟨fun _ => h, fun hseg => h.nextSegment hload hdata hseg hend (by simpa using hfirst)⟩

theorem blockDone_of_end {y : SegmentLoop} {blockDone : Bool} (hseg : y.seg = 3)
    (hdata : p.segmentSlice c s 3 = .ok data) (hend : y.offset = data.length)
    (hdone : isBlockDone c s p y = .ok blockDone) : blockDone = true := by
  rw [isBlockDone, if_pos hseg] at hdone
  cases hlen : p.segmentLen c s 3 with
  | error e =>
      rw [hlen] at hdone
      exact absurd hdone (by simp [Except.map])
  | ok len =>
      obtain ⟨data', hdata', rfl, -⟩ := segmentLen_ok hlen
      obtain rfl := Except.ok.inj (hdata.symm.trans hdata')
      rw [hlen] at hdone
      obtain rfl := Except.ok.inj hdone
      exact decide_eq_true hend

-- only the last segment is left standing at its end
def Inside (c : Crypto) (s : StableState W) (b seg offset : Nat) : Prop :=
  seg = 3 ∨ offset = 0 ∨ ∃ data, SegmentOf c s b seg data ∧ offset < data.length

structure SegmentExit (c : Crypto) (s : StableState W) (origin : Position) (budget b : Nat)
    (p : BlockPayloads) (y : SegmentLoop) : Prop where
  emitting : Emitting c s origin budget b y
  exit : y.remaining = 0 ∨ y.seg = 3 ∧ ∃ data, p.segmentSlice c s 3 = .ok data ∧ y.offset = data.length
  inside : Inside c s b y.seg y.offset

theorem exportSegments_exit {fuel : Nat} {y : SegmentLoop} (h : Emitting c s origin budget b x)
    (hload : BlockPayloads.load s b = .ok p) (hfuel : x.remaining = 0 ∨ 4 ≤ fuel + x.seg)
    (hinside : x.remaining ≠ 0 ∨ Inside c s b x.seg x.offset)
    (hrun : exportSegments c s p fuel x = .ok y) :
    SegmentExit c s origin budget b p y ∧
      (x.isFirst = false ∨ x.remaining ≠ 0 → y.isFirst = false) := by
  induction fuel generalizing x with
  | zero =>
      obtain rfl := Except.ok.inj hrun
      have hle := h.seg_le
      have hzero : x.remaining = 0 := by omega
      exact ⟨⟨h, Or.inl hzero, hinside.resolve_left (fun hne => hne hzero)⟩,
        fun hfirst => hfirst.resolve_right (fun hne => hne hzero)⟩
  | succ fuel ih =>
      rw [exportSegments] at hrun
      by_cases hguard : x.remaining = 0 ∨ x.seg > 3
      · rw [if_pos hguard] at hrun
        obtain rfl := Except.ok.inj hrun
        have hle := h.seg_le
        have hzero : x.remaining = 0 := by omega
        exact ⟨⟨h, Or.inl hzero, hinside.resolve_left (fun hne => hne hzero)⟩,
          fun hfirst => hfirst.resolve_right (fun hne => hne hzero)⟩
      · rw [if_neg hguard] at hrun
        obtain ⟨hremaining, -⟩ := not_or.mp hguard
        have hnext : 4 ≤ fuel + (x.seg + 1) := by omega
        obtain ⟨len, hlen, hrun⟩ := bind_eq_ok.mp hrun
        obtain ⟨data, hdata, rfl, -⟩ := segmentLen_ok hlen
        by_cases hover : x.offset > data.length
        · rw [if_pos hover] at hrun
          exact absurd hrun (by simp)
        · rw [if_neg hover] at hrun
          by_cases hend : x.offset = data.length
          · -- the segment is used up: only a marker may be emitted for it
            rw [if_pos hend] at hrun
            obtain ⟨hlast, hpast⟩ := h.marker hload hdata hend
            obtain ⟨hseg, hoffset, hfirst⟩ := x.marker_keeps data.length
            dsimp only at hrun
            rw [hseg] at hrun
            by_cases hthree : x.seg = 3
            · rw [if_pos hthree] at hrun
              obtain rfl := Except.ok.inj hrun
              refine ⟨⟨hlast hthree, Or.inr ⟨hseg.trans hthree, data, ?_, hoffset.trans hend⟩,
                Or.inl (hseg.trans hthree)⟩, fun _ => hfirst⟩
              rw [← hthree]
              exact hdata
            · rw [if_neg hthree] at hrun
              obtain ⟨hexit, hstarted⟩ := ih (hpast hthree) (Or.inr hnext)
                (Or.inr (Or.inr (Or.inl rfl))) hrun
              exact ⟨hexit, fun _ => hstarted (Or.inl hfirst)⟩
          · rw [if_neg hend] at hrun
            dsimp only at hrun
            obtain ⟨data', hdata', hrun⟩ := bind_eq_ok.mp hrun
            obtain rfl := Except.ok.inj (hdata.symm.trans hdata')
            generalize hn : (if data.length - x.offset > x.remaining then x.remaining
              else data.length - x.offset) = n at hrun
            have hbounds : 0 < n ∧ n ≤ x.remaining ∧ x.offset + n ≤ data.length ∧
                (x.offset + n ≠ data.length → x.remaining - n = 0) := by
              split_ifs at hn <;> omega
            obtain ⟨hpos, hle, hfit, hspent⟩ := hbounds
            have hemit := h.emit hload hdata hpos hle hfit
            have hoffset : (x.emit data n data.length).offset = x.offset + n := rfl
            have hseg : (x.emit data n data.length).seg = x.seg := rfl
            rw [hoffset, hseg] at hrun
            by_cases hfull : x.offset + n = data.length
            · rw [if_pos hfull] at hrun
              by_cases hthree : x.seg = 3
              · rw [if_pos hthree] at hrun
                obtain rfl := Except.ok.inj hrun
                refine ⟨⟨hemit, Or.inr ⟨hthree, data, ?_, hfull⟩, Or.inl hthree⟩, fun _ => rfl⟩
                rw [← hthree]
                exact hdata
              · rw [if_neg hthree] at hrun
                have hpast := hemit.nextSegment hload hdata hthree hfull rfl
                obtain ⟨hexit, hstarted⟩ := ih hpast (Or.inr hnext)
                  (Or.inr (Or.inr (Or.inl rfl))) hrun
                exact ⟨hexit, fun _ => hstarted (Or.inl rfl)⟩
            · rw [if_neg hfull] at hrun
              have hwithin : Inside c s b x.seg (x.offset + n) :=
                Or.inr (Or.inr ⟨data, ⟨p, hload, hdata⟩, lt_of_le_of_ne hfit hfull⟩)
              obtain ⟨hexit, hstarted⟩ := ih hemit (Or.inl (hspent hfull)) (Or.inr hwithin) hrun
              exact ⟨hexit, fun _ => hstarted (Or.inl rfl)⟩

end

structure Between (c : Crypto) (s : StableState W) (origin : Position) (budget : Nat)
    (x : BlockLoop) : Prop where
  seg_le : x.seg ≤ 3
  follows : Following origin x.blockNumber x.seg x.offset true x.chunks
  streams : Streams (SegmentOf c s) 3 origin (placed origin.block x.chunks)
    ⟨x.blockNumber, x.seg, x.offset⟩
  tidy : Tidy c s origin x.chunks
  budget : x.remaining + emittedBytes x.chunks = budget
  emitted : x.blockNumber = origin.block + x.blocksEmitted

-- the call ends because the budget is spent, or before a block it does not open
structure Ended (c : Crypto) (s : StableState W) (origin : Position) (budget : Nat)
    (y : BlockLoop) : Prop where
  seg_le : y.seg ≤ 3
  streams : Streams (SegmentOf c s) 3 origin (placed origin.block y.chunks)
    ⟨y.blockNumber, y.seg, y.offset⟩
  tidy : Tidy c s origin y.chunks
  budget : y.remaining + emittedBytes y.chunks = budget
  exit : y.remaining = 0 ∧ y.blockNumber < origin.block + maxExportBlocks ∨ y.seg = 0 ∧ y.offset = 0
  inside : Inside c s y.blockNumber y.seg y.offset

section

variable {origin : Position} {budget head b : Nat} {p : BlockPayloads} {x : BlockLoop}
  {y : SegmentLoop} {prunedBefore : Option Nat}

theorem Between.emitting (h : Between c s origin budget x) : Emitting c s origin budget x.blockNumber
    ⟨x.chunks, x.remaining, x.seg, x.offset, true, false⟩ :=
  ⟨h.seg_le, rfl, h.follows, h.streams, h.tidy, h.budget⟩

theorem between_nextBlock {blocksEmitted : Nat} (h : Emitting c s origin budget b y)
    (hload : BlockPayloads.load s b = .ok p) (hstarted : y.isFirst = false) (hseg : y.seg = 3)
    {data : Bytes} (hdata : p.segmentSlice c s 3 = .ok data) (hend : y.offset = data.length)
    (hemitted : b + 1 = origin.block + blocksEmitted) : Between c s origin budget
      (BlockLoop.nextBlock ⟨y.chunks, y.remaining, y.seg, y.offset, b, blocksEmitted⟩) := by
  have hfollows := h.follows
  rw [hstarted] at hfollows
  have hstreams := h.streams
  rw [hseg, hend] at hstreams
  refine ⟨Nat.zero_le 3, ?_, ?_, h.tidy, h.budget, hemitted⟩
  · right
    exact ⟨congrArg (fun b => b + 1) hfollows.1.symm, rfl, rfl, hfollows.2.1⟩
  · exact hstreams.nextBlock ⟨p, hload, hdata⟩

theorem Between.ended (h : Between c s origin budget x) (hstart : x.seg = 0 ∧ x.offset = 0) :
    Ended c s origin budget x :=
  ⟨h.seg_le, h.streams, h.tidy, h.budget, Or.inr hstart, Or.inr (Or.inl hstart.2)⟩

theorem exportFrom_ended {fuel : Nat} {z : BlockLoop} (h : Between c s origin budget x)
    (hopen : x.seg = 0 ∧ x.offset = 0 ∨ x.remaining ≠ 0 ∧ x.blockNumber ≤ head ∧
      x.blocksEmitted < maxExportBlocks) (hfuel : maxExportBlocks ≤ fuel + x.blocksEmitted)
    (hrun : exportFrom c s head prunedBefore fuel x = .ok z) : Ended c s origin budget z := by
  induction fuel generalizing x with
  | zero =>
      obtain rfl := Except.ok.inj hrun
      exact h.ended (hopen.resolve_right (by omega))
  | succ fuel ih =>
      rw [exportFrom] at hrun
      by_cases hguard : x.remaining = 0 ∨ x.blocksEmitted ≥ maxExportBlocks
      · rw [if_pos hguard] at hrun
        obtain rfl := Except.ok.inj hrun
        exact h.ended (hopen.resolve_right (by omega))
      · rw [if_neg hguard] at hrun
        obtain ⟨hremaining, hbelow⟩ := not_or.mp hguard
        by_cases hpast : x.blockNumber > head
        · rw [if_pos hpast] at hrun
          obtain rfl := Except.ok.inj hrun
          exact h.ended (hopen.resolve_right (by omega))
        · rw [if_neg hpast] at hrun
          split at hrun
          · exact absurd hrun (by simp)
          · rw [if_neg (not_lt.mpr h.seg_le)] at hrun
            obtain ⟨p, hload, hrun⟩ := bind_eq_ok.mp hrun
            obtain ⟨len, hlen, hrun⟩ := bind_eq_ok.mp hrun
            by_cases hover : x.offset > len
            · rw [if_pos hover] at hrun
              exact absurd hrun (by simp)
            · rw [if_neg hover] at hrun
              obtain ⟨y, hy, hrun⟩ := bind_eq_ok.mp hrun
              obtain ⟨⟨hemitting, hexit, hinside⟩, hstarted⟩ := exportSegments_exit h.emitting hload
                (Or.inr (Nat.le_add_right 4 x.seg)) (Or.inl hremaining) hy
              have hfirst : y.isFirst = false := hstarted (Or.inr hremaining)
              have hcount : (if y.blockStarted = true then x.blocksEmitted + 1
                  else x.blocksEmitted) = x.blocksEmitted + 1 := by
                rw [hemitting.started, hfirst]
                rfl
              have hemitted := h.emitted
              dsimp only at hrun
              rw [hcount] at hrun
              obtain ⟨blockDone, hdone, hrun⟩ := bind_eq_ok.mp hrun
              by_cases hstop : y.remaining = 0 ∨ blockDone = false
              · rw [if_pos hstop] at hrun
                obtain rfl := Except.ok.inj hrun
                refine ⟨hemitting.seg_le, hemitting.streams, hemitting.tidy, hemitting.budget,
                  Or.inl ⟨?_, by dsimp only; omega⟩, hinside⟩
                rcases hexit with hspent | ⟨hseg, data, hdata, hend⟩
                · exact hspent
                · apply hstop.resolve_right
                  rw [blockDone_of_end hseg hdata hend hdone]
                  simp
              · rw [if_neg hstop] at hrun
                obtain ⟨hleft, -⟩ := not_or.mp hstop
                obtain ⟨hseg, data, hdata, hend⟩ := hexit.resolve_left hleft
                have hcounted : x.blockNumber + 1 = origin.block + (x.blocksEmitted + 1) := by omega
                have hnext := between_nextBlock hemitting hload hfirst hseg hdata hend hcounted
                by_cases hfull : x.blocksEmitted + 1 ≥ maxExportBlocks
                · rw [if_pos hfull] at hrun
                  obtain rfl := Except.ok.inj hrun
                  exact hnext.ended ⟨rfl, rfl⟩
                · rw [if_neg hfull] at hrun
                  apply ih hnext (Or.inl ⟨rfl, rfl⟩) _ hrun
                  rw [BlockLoop.nextBlock]
                  dsimp only
                  omega

end

def byteBudget (maxBytes : Nat) : Nat :=
  if maxBytes > maxExportBytes then maxExportBytes else maxBytes

theorem byteBudget_le (maxBytes : Nat) : byteBudget maxBytes ≤ maxBytes := by
  rw [byteBudget]
  split_ifs <;> omega

structure Responds (c : Crypto) (s : StableState W) (cursor : ExportCursor) (maxBytes : Nat)
    (resp : ExportResponse) (next : ExportCursor) : Prop where
  next_eq : resp.nextCursor = some next
  seg_le : next.segment ≤ 3
  streams : Streams (SegmentOf c s) 3 cursor.position (placed cursor.blockNumber resp.chunks)
    next.position
  tidy : Tidy c s cursor.position resp.chunks
  within : emittedBytes resp.chunks ≤ byteBudget maxBytes
  emits : resp.chunks ≠ [] → emittedBytes resp.chunks ≠ 0
  exit : resp.chunks ≠ [] → emittedBytes resp.chunks = byteBudget maxBytes ∧
    next.blockNumber < cursor.blockNumber + maxExportBlocks ∨ next.segment = 0 ∧ next.byteOffset = 0
  inside : resp.chunks ≠ [] → Inside c s next.blockNumber next.segment next.byteOffset

theorem exportBlocks_responds {cursor : ExportCursor} {maxBytes : Nat} {resp : ExportResponse}
    (hrun : exportBlocks c s (some cursor) maxBytes = .ok resp) :
    ∃ next, Responds c s cursor maxBytes resp next := by
  rw [exportBlocks] at hrun
  by_cases hzero : maxBytes = 0
  · rw [if_pos hzero] at hrun
    exact absurd hrun (by simp)
  · rw [if_neg hzero] at hrun
    have hpos : byteBudget maxBytes ≠ 0 := by
      rw [byteBudget, maxExportBytes]
      split_ifs <;> omega
    have hbudget : (if maxBytes > maxExportBytes then maxExportBytes else maxBytes) =
      byteBudget maxBytes := rfl
    rw [hbudget] at hrun
    dsimp only at hrun
    rw [Option.getD_some] at hrun
    split at hrun
    · exact absurd hrun (by simp)
    · split_ifs at hrun with hseg hpast
      · obtain rfl := Except.ok.inj hrun
        exact ⟨cursor, rfl, not_lt.mp hseg, .start, tidy_nil _, Nat.zero_le _,
          fun hne => absurd rfl hne, fun hne => absurd rfl hne, fun hne => absurd rfl hne⟩
      · obtain ⟨x, hx, hrun⟩ := bind_eq_ok.mp hrun
        split_ifs at hrun with hnone
        obtain rfl := Except.ok.inj hrun
        have hstart : Between c s cursor.position (byteBudget maxBytes)
            ⟨[], byteBudget maxBytes, cursor.segment, cursor.byteOffset, cursor.blockNumber, 0⟩ :=
          ⟨not_lt.mp hseg, Or.inl ⟨rfl, rfl⟩, .start, tidy_nil _, rfl, rfl⟩
        have hended := exportFrom_ended hstart (Or.inr ⟨hpos, not_lt.mp hpast, Nat.succ_pos 63⟩)
          (Nat.le_refl maxExportBlocks) hx
        have hspent := hended.budget
        refine ⟨⟨x.blockNumber, x.seg, x.offset⟩, rfl, hended.seg_le, hended.streams, hended.tidy, ?_,
          fun _ => hnone, fun _ => ?_, fun _ => hended.inside⟩
        · dsimp only
          omega
        · rcases hended.exit with ⟨hzero, hnear⟩ | hbegin
          · refine Or.inl ⟨?_, hnear⟩
            dsimp only
            omega
          · exact Or.inr hbegin

end Kasane.Export
