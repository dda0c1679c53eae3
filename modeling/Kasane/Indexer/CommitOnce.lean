import Kasane.Indexer.StoredBlocks

namespace Kasane.Indexer

open BigEndian Codec Word Chain Export SegmentStream

variable {W : Type} {c : Crypto} {s t : StableState W}

theorem map_chunkOf_placed (b : Nat) (chunks : List ExportChunk) :
    (placed b chunks).map chunkOf = chunks := by
  induction chunks using List.reverseRecOn with
  | nil => rfl
  | append_singleton chunks chunk ih =>
      rw [placed, placeChunks_snoc, placeChunk]
      dsimp only
      rw [List.map_append]
      exact congrArg (fun l => l ++ [chunk]) ih

theorem placed_cons (b : Nat) (chunk : ExportChunk) (chunks : List ExportChunk) :
    ∃ out, placed b (chunk :: chunks) =
      ⟨b, chunk.segment, chunk.start, chunk.bytes, chunk.payloadLen⟩ :: out := by
  induction chunks using List.reverseRecOn with
  | nil =>
      refine ⟨[], ?_⟩
      rw [placed, placeChunks, List.foldl_cons, List.foldl_nil, placeChunk]
      dsimp only
      rw [if_neg (fun h => h.2 rfl)]
      rfl
  | append_singleton chunks last ih =>
      obtain ⟨out, hout⟩ := ih
      rw [← List.cons_append, placed, placeChunks_snoc, placeChunk]
      dsimp only
      rw [← placed, hout]
      exact ⟨_, List.cons_append ..⟩

-- no chunk stream can end where the worker and the export disagree on the next position
def Unended (Segment : Nat → Nat → Bytes → Prop) (p : Position) : Prop :=
  ∀ data, Segment p.block p.segment data → p.offset ≠ data.length

section

variable {cursor next : ExportCursor} {maxBytes first : Nat} {blind : Prop} {resp : ExportResponse}
  {x : StreamState}

theorem consumed_of_responds (h : Responds c s cursor maxBytes resp next) (hne : resp.chunks ≠ [])
    (hm : Minted s) (hx : Stands (SegmentOf c s) first blind x cursor.position)
    (hblind : blind → first < next.blockNumber)
    (hend : 0 < next.byteOffset → Unended (SegmentOf c s) next.position) :
    ∃ y z, consumeChunks true x resp.chunks = .ok y ∧ finishResponse y next = .ok z ∧
      Stands (SegmentOf c s) first blind z next.position ∧ z.streamCursor = some next := by
  have functional := segmentOf_functional (c := c) (s := s)
  have solid := solid_segmentOf (c := c) hm
  have numbered := numbered_segmentOf (c := c) hm
  obtain ⟨chunk, chunks, hchunks⟩ := List.exists_cons_of_ne_nil hne
  obtain ⟨out, hout⟩ := placed_cons cursor.blockNumber chunk chunks
  have hmap := map_chunkOf_placed cursor.blockNumber (chunk :: chunks)
  rw [hout, List.map_cons] at hmap
  obtain ⟨-, hmap⟩ := List.cons.inj hmap
  have hstreams := h.streams
  rw [hchunks, hout] at hstreams
  obtain ⟨data, n, -, hdata, hcut, hsize, hbound, hprogress, hrest⟩ := hstreams.uncons
  dsimp only at hdata hcut hsize hbound hprogress hrest
  obtain ⟨hseg, hstart⟩ := h.tidy.first chunk (by rw [hchunks]; rfl)
  rw [hseg] at hdata hrest
  rw [hstart] at hcut hbound hprogress hrest
  have hitems : ∀ s ∈ out, s.items ≠ [] := by
    intro s hs
    have hmem : chunkOf s ∈ resp.chunks.tail := by
      rw [hchunks, List.tail_cons, ← hmap]
      exact List.mem_map_of_mem hs
    exact h.tidy.solid (fun b data hdata => solid b 0 data hdata (Nat.succ_pos 2)) _ hmem
  have hnext : cursor.segment = 3 → cursor.byteOffset + n = data.length →
      ∀ chunk, chunks.head? = some chunk → chunk.segment = 0 ∧ chunk.start = 0 := by
    intro hlast hended chunk hchunk
    rw [← hmap] at hchunk
    cases out with
    | nil => exact absurd hchunk (by simp)
    | cons s' out =>
        obtain rfl := Option.some.inj hchunk
        exact startsNext solid hrest hlast hdata hended functional (hitems s' (List.mem_cons_self ..))
  obtain ⟨w, hrun, hw⟩ := hx.consumeChunk functional numbered solid (.inl rfl) hdata hbound hprogress
    hnext true
  obtain ⟨y, q', p', hrun', hy, hsettled, hlast, hmoved⟩ := hw.consumeChunks functional numbered solid
    ⟨data, hdata, rfl⟩ hrest hitems
  have hpos : 0 < p'.offset := by
    rcases hmoved with ⟨rfl, hnil⟩ | hpos
    · apply Nat.lt_of_lt_of_le (Nat.pos_of_ne_zero _) (Nat.le_add_left n cursor.byteOffset)
      rintro rfl
      rw [hnil] at hmap
      apply h.emits hne
      rw [hchunks, ← hmap, emittedBytes, List.map_cons, hcut]
      rfl
    · exact hpos
  have hlag := hsettled.silent functional (hlast.silent (Nat.succ_pos 2) solid) (by
    rintro rfl
    exact hend hpos)
  obtain ⟨z, hfinish, hz, hcursor⟩ := hy.finishResponse functional numbered solid hlag hblind
  refine ⟨y, z, ?_, hfinish, hz, hcursor⟩
  rw [hchunks, consumeChunks]
  simp only [bind, Except.bind]
  have hfirst : chunk = ⟨cursor.position.segment, cursor.position.offset,
      (data.drop cursor.position.offset).take n, data.length⟩ := by
    rw [← hcut, ← hsize, ← hseg, ← hstart]
  rw [hfirst, hrun]
  dsimp only
  rw [← hmap]
  exact hrun'

end

-- the export starts at its own first block when the worker has no cursor yet
def origin (s : StableState W) (cursor : Option ExportCursor) : ExportCursor :=
  cursor.getD (Export.startCursor s)

structure Aligned (c : Crypto) (s : StableState W) (cursor : Option ExportCursor)
    (maxBytes : Nat) : Prop where
  block_end : ∀ b data out, b < (origin s cursor).blockNumber + maxExportBlocks →
    SegmentOf c s b 3 data → data ≠ [] →
      Streams (SegmentOf c s) 3 (origin s cursor).position out ⟨b, 3, data.length⟩ →
        (out.flatMap Piece.items).length ≠ byteBudget maxBytes
  first_block : cursor = none → (Export.startCursor s).blockNumber ≤ s.head.number →
    ∃ payloads traces, Assembled (SegmentOf c s) (Export.startCursor s).blockNumber payloads ∧
      SegmentOf c s (Export.startCursor s).blockNumber 3 traces ∧ traces ≠ [] ∧
        payloads.flatten.length < byteBudget maxBytes

inductive IndexerRun (c : Crypto) (evm : Evm W) (world : W) (start : Option Nat) :
    StableState W → WorkerState → Prop
  | start {s : StableState W} (chain : ChainRun c evm (fun _ _ => True) (.init world) s) :
      IndexerRun c evm world start s ⟨start.map (fun n => ⟨n, 0, 0⟩), none, []⟩
  | grow {s t : StableState W} {w : WorkerState} (run : IndexerRun c evm world start s w)
      (grows : Grows c s t) (chain : ChainRun c evm (fun _ _ => True) (.init world) t) :
      IndexerRun c evm world start t w
  | response {s : StableState W} {w w' : WorkerState} {maxBytes : Nat} {resp : ExportResponse}
      (run : IndexerRun c evm world start s w) (pos : 1 ≤ maxBytes)
      (ok : exportBlocks c s w.cursor maxBytes = .ok resp) (aligned : Aligned c s w.cursor maxBytes)
      (handled : handleResponse maxBytes w resp = .ok w') : IndexerRun c evm world start s w'

theorem exportBlocks_origin (cursor : Option ExportCursor) (maxBytes : Nat) :
    exportBlocks c s cursor maxBytes = exportBlocks c s (some (origin s cursor)) maxBytes := rfl

theorem unended_of_responds {cursor : Option ExportCursor} {next : ExportCursor} {maxBytes : Nat}
    {resp : ExportResponse} (h : Responds c s (origin s cursor) maxBytes resp next)
    (hne : resp.chunks ≠ []) (haligned : Aligned c s cursor maxBytes)
    (hpos : 0 < next.byteOffset) : Unended (SegmentOf c s) next.position := by
  intro data hdata hended
  have hlen : data.length ≠ 0 := by
    rw [← hended]
    exact Nat.ne_of_gt hpos
  rcases h.exit hne with ⟨hbudget, hnear⟩ | ⟨-, hzero⟩
  · rcases h.inside hne with hlast | hzero | ⟨data', hdata', hinside⟩
    · have hstreams := h.streams
      have hposition : next.position = ⟨next.blockNumber, 3, data.length⟩ := by
        rw [ExportCursor.position, hlast, ← hended]
        rfl
      have hdata' : SegmentOf c s next.blockNumber 3 data := by
        rw [← hlast]
        exact hdata
      have htraces : data ≠ [] := fun hnil => hlen (congrArg List.length hnil)
      rw [hposition] at hstreams
      apply haligned.block_end next.blockNumber data _ hnear hdata' htraces hstreams
      rw [items_placed]
      exact hbudget
    · omega
    · obtain rfl := segmentOf_functional _ _ _ _ hdata hdata'
      exact absurd hended (Nat.ne_of_lt hinside)
  · omega

theorem exportBlocks_within_head {cursor : ExportCursor} {maxBytes : Nat} {resp : ExportResponse}
    (hrun : exportBlocks c s (some cursor) maxBytes = .ok resp) (hne : resp.chunks ≠ []) :
    cursor.blockNumber ≤ s.head.number := by
  apply not_lt.mp
  intro hpast
  rw [exportBlocks] at hrun
  by_cases hzero : maxBytes = 0
  · rw [if_pos hzero] at hrun
    exact absurd hrun (by simp)
  · rw [if_neg hzero] at hrun
    dsimp only at hrun
    rw [Option.getD_some] at hrun
    split at hrun
    · exact absurd hrun (by simp)
    · split_ifs at hrun
      obtain rfl := Except.ok.inj hrun
      exact hne rfl

theorem segmentOf_le {b k : Nat} {data : Bytes} (h : SegmentOf c s b k data) : k ≤ 3 := by
  obtain ⟨p, -, hdata⟩ := h
  match k with
  | 0 | 1 | 2 | 3 => omega
  | k + 4 => exact absurd hdata (by simp [BlockPayloads.segmentSlice])

theorem Assembled.segment {b k : Nat} {payloads : List Bytes}
    (h : Assembled (SegmentOf c s) b payloads) (hk : k ≤ 3) :
    SegmentOf c s b k (payloads.getD k []) := by
  obtain ⟨block, receipts, txIndex, traces, h₀, h₁, h₂, h₃, rfl⟩ := h
  match k with
  | 0 => exact h₀
  | 1 => exact h₁
  | 2 => exact h₂
  | 3 => exact h₃

theorem length_upto_le {payloads : List Bytes} {k o : Nat} (hlen : payloads.length = 4) (hk : k ≤ 3)
    (ho : o ≤ (payloads.getD k []).length) :
    ((List.range k).map (fun k => (payloads.getD k []).length)).sum + o ≤ payloads.flatten.length := by
  obtain ⟨block, receipts, txIndex, traces, rfl⟩ := List.length_eq_four.mp hlen
  have hflatten : [block, receipts, txIndex, traces].flatten.length =
      block.length + receipts.length + txIndex.length + traces.length := by
    simp [Nat.add_assoc]
  rw [hflatten]
  match k with
  | 0 =>
      have ho : o ≤ block.length := ho
      simp only [List.range_zero, List.map_nil, List.sum_nil]
      omega
  | 1 =>
      have ho : o ≤ receipts.length := ho
      have hsum : ((List.range 1).map (fun k => ([block, receipts, txIndex, traces].getD k []).length)).sum =
        block.length := Nat.add_zero _
      omega
  | 2 =>
      have ho : o ≤ txIndex.length := ho
      have hsum : ((List.range 2).map (fun k => ([block, receipts, txIndex, traces].getD k []).length)).sum =
        block.length + (receipts.length + 0) := rfl
      omega
  | 3 =>
      have ho : o ≤ traces.length := ho
      have hsum : ((List.range 3).map (fun k => ([block, receipts, txIndex, traces].getD k []).length)).sum =
        block.length + (receipts.length + (txIndex.length + 0)) := rfl
      omega

theorem passes_first_block {next : ExportCursor} {maxBytes : Nat} {resp : ExportResponse}
    (h : Responds c s (Export.startCursor s) maxBytes resp next) (hne : resp.chunks ≠ [])
    {payloads : List Bytes}
    (hassembled : Assembled (SegmentOf c s) (Export.startCursor s).blockNumber payloads)
    (hbudget : payloads.flatten.length < byteBudget maxBytes) :
    (Export.startCursor s).blockNumber < next.blockNumber := by
  have hstart : (Export.startCursor s).position = ⟨(Export.startCursor s).blockNumber, 0, 0⟩ := rfl
  have hstreams := h.streams
  have hadvances := h.advances hne
  rw [hstart] at hstreams hadvances
  generalize (Export.startCursor s).blockNumber = first at hstreams hadvances hassembled
  by_contra hle
  have hblock : next.blockNumber = first := by
    rcases hadvances with hlt | ⟨heq, -⟩
    · exact absurd hlt hle
    · exact heq.symm
  rcases h.exit hne with ⟨hspent, -⟩ | ⟨hseg, hoffset⟩
  · have hlens : ∀ k data, SegmentOf c s first k data → data.length = (payloads.getD k []).length := by
      intro k data hdata
      have hsegment := hassembled.segment (segmentOf_le hdata)
      rw [segmentOf_functional _ _ _ _ hdata hsegment]
    have htotal := hstreams.length_of_block hlens hblock
    have hdelivered := hstreams.delivered segmentOf_functional (delivered_start first)
    have hsegment := hassembled.segment h.seg_le
    rw [← hblock] at hsegment
    obtain ⟨hreached, -⟩ := hdelivered.reached _ hsegment
    have hwhole : payloads.length = 4 := by
      obtain ⟨block, receipts, txIndex, traces, -, -, -, -, rfl⟩ := hassembled
      rfl
    have hbound := length_upto_le hwhole h.seg_le hreached
    rw [items_placed, hspent] at htotal
    dsimp only [ExportCursor.position] at htotal hbound
    omega
  · rcases hadvances with hlt | ⟨-, hlt | ⟨-, hlt⟩⟩
    · exact hle hlt
    · exact absurd hlt (by simp [ExportCursor.position, hseg])
    · exact absurd hlt (by simp [ExportCursor.position, hoffset])

theorem enforceNextCursor_ok {cursor next : ExportCursor} {maxBytes : Nat}
    {resp : ExportResponse} (h : Responds c s cursor maxBytes resp next) (hne : resp.chunks ≠ []) :
    enforceNextCursor resp next cursor = .ok () := by
  obtain ⟨chunk, chunks, hchunks⟩ := List.exists_cons_of_ne_nil hne
  obtain ⟨hseg, hstart⟩ := h.tidy.first chunk (by rw [hchunks]; rfl)
  have hadvances := h.advances hne
  have hle := h.seg_le
  unfold Position.Before at hadvances
  dsimp only [ExportCursor.position] at hseg hstart hadvances
  rw [enforceNextCursor, if_neg (by rw [maxSegment]; omega), hchunks]
  dsimp only
  rw [if_neg (by omega), if_neg (by omega), if_neg (by omega), if_neg (by omega)]

def Tracks (Segment : Nat → Nat → Bytes → Prop) (first : Nat) (w : WorkerState) : Prop :=
  match w.cursor with
  | some cursor =>
      Stands Segment first False ⟨some cursor, w.pending, w.committed⟩ cursor.position
  | none => w.pending = none ∧ w.committed = []

theorem handled_of_responds {cursor next : ExportCursor} {maxBytes first : Nat} {blind : Prop}
    {resp : ExportResponse} {w : WorkerState} (h : Responds c s cursor maxBytes resp next)
    (hne : resp.chunks ≠ []) (hm : Minted s)
    (hstart : ∀ chunk, resp.chunks.head? = some chunk → Stands (SegmentOf c s) first blind
      ⟨w.cursor, some (startPending w chunk), w.committed⟩ cursor.position)
    (hcursor : w.cursor = none ∨ w.cursor = some cursor) (hblind : blind → first < next.blockNumber)
    (hend : 0 < next.byteOffset → Unended (SegmentOf c s) next.position) :
    ∃ w', handleResponse maxBytes w resp = .ok w' ∧ w'.cursor = some next ∧
      Tracks (SegmentOf c s) first w' := by
  obtain ⟨chunk, chunks, hchunks⟩ := List.exists_cons_of_ne_nil hne
  have hx := hstart chunk (by rw [hchunks]; rfl)
  obtain ⟨y, z, hconsume, hfinish, hz, hmoved⟩ := consumed_of_responds h hne hm hx hblind hend
  have henforce : enforceCursor resp next w.cursor = .ok () := by
    rcases hcursor with hnone | hsome
    · rw [hnone]
      rfl
    · rw [hsome]
      exact enforceNextCursor_ok h hne
  have hbytes : ¬ emittedBytes (chunk :: chunks) > maxBytes := by
    rw [← hchunks]
    exact not_lt.mpr (h.within.trans (byteBudget_le maxBytes))
  refine ⟨⟨some next, z.activePending, z.committed⟩, ?_, rfl, ?_⟩
  · rw [handleResponse, hchunks]
    dsimp only
    rw [if_neg hbytes, h.next_eq]
    dsimp only
    rw [henforce, ← hchunks]
    simp only [bind, Except.bind]
    rw [hconsume]
    dsimp only
    rw [hfinish]
    rfl
  · exact ⟨hz.holds, hz.segment, hz.offset, .inl rfl, hz.commits⟩

theorem handleResponse_ok {first maxBytes : Nat} {w : WorkerState} {resp : ExportResponse}
    (hm : Minted s) (hw : Tracks (SegmentOf c s) first w)
    (hok : exportBlocks c s w.cursor maxBytes = .ok resp) (haligned : Aligned c s w.cursor maxBytes) :
    ∃ w', handleResponse maxBytes w resp = .ok w' ∧ (resp.chunks = [] ∧ w' = w ∨
      resp.chunks ≠ [] ∧ w'.cursor.isSome ∧
        Tracks (SegmentOf c s) (w.cursor.elim (Export.startCursor s).blockNumber fun _ => first) w') := by
  by_cases hne : resp.chunks = []
  · refine ⟨w, ?_, .inl ⟨hne, rfl⟩⟩
    rw [handleResponse, hne]
  · rw [exportBlocks_origin] at hok
    obtain ⟨next, hresponds⟩ := exportBlocks_responds hok
    have hend := unended_of_responds hresponds hne haligned
    cases hcursor : w.cursor with
    | some cursor =>
        rw [Tracks, hcursor] at hw
        rw [hcursor] at hresponds
        obtain ⟨w', hhandled, hmoved, htracks⟩ := handled_of_responds (w := w) hresponds hne hm (by
          intro chunk _
          rw [hcursor, startPending, hcursor]
          exact ⟨hw.holds, hw.segment, hw.offset, .inl rfl, hw.commits⟩)
          (.inr hcursor) False.elim hend
        exact ⟨w', hhandled, .inr ⟨hne, by rw [hmoved]; rfl, htracks⟩⟩
    | none =>
        rw [Tracks, hcursor] at hw
        obtain ⟨hnone, hnil⟩ := hw
        rw [hcursor] at hresponds haligned hok
        have hhead := exportBlocks_within_head hok hne
        obtain ⟨payloads, traces, hassembled, htraces, hsolid, hbudget⟩ := haligned.first_block rfl hhead
        have hpasses := passes_first_block hresponds hne hassembled hbudget
        obtain ⟨w', hhandled, hmoved, htracks⟩ := handled_of_responds (w := w) hresponds hne hm (by
          intro chunk hchunk
          obtain ⟨hseg, hstart⟩ := hresponds.tidy.first chunk hchunk
          rw [hcursor, startPending, hnone, hcursor, hnil]
          have hpending : newPendingFromChunk chunk = emptyPending 0 0 := by
            rw [newPendingFromChunk, hseg, hstart]
            rfl
          dsimp only [Option.getD_none]
          rw [hpending]
          exact ⟨holds_emptyPending, rfl, rfl, .inr ⟨rfl, trivial, rfl, traces, htraces, hsolid⟩,
            commits_nil _⟩)
          (.inl hcursor) (fun _ => hpasses) hend
        exact ⟨w', hhandled, .inr ⟨hne, by rw [hmoved]; rfl, htracks⟩⟩

theorem Tracks.mono {first : Nat} {w : WorkerState} (h : Tracks (SegmentOf c s) first w)
    (hgrows : Grows c s t) : Tracks (SegmentOf c t) first w := by
  rw [Tracks] at h ⊢
  split at h
  · exact h.mono hgrows.kept
  · exact h

structure Follows (c : Crypto) (s : StableState W) (start : Option Nat) (w : WorkerState) : Prop where
  minted : Minted s
  tracks : ∃ first, Tracks (SegmentOf c s) first w ∧
    ∀ n, start = some n → first = n ∧ w.cursor.isSome

theorem follows_response {start : Option Nat} {w w' : WorkerState} {maxBytes : Nat}
    {resp : ExportResponse} (h : Follows c s start w)
    (hok : exportBlocks c s w.cursor maxBytes = .ok resp) (haligned : Aligned c s w.cursor maxBytes)
    (hhandled : handleResponse maxBytes w resp = .ok w') : Follows c s start w' := by
  obtain ⟨first, htracks, hstart⟩ := h.tracks
  obtain ⟨w'', hhandled', hcases⟩ := handleResponse_ok h.minted htracks hok haligned
  obtain rfl := Except.ok.inj (hhandled.symm.trans hhandled')
  rcases hcases with ⟨-, rfl⟩ | ⟨-, hsome, htracks'⟩
  · exact h
  · refine ⟨h.minted, _, htracks', ?_⟩
    intro n hn
    obtain ⟨rfl, hcursor⟩ := hstart n hn
    obtain ⟨cursor, hcursor⟩ := Option.isSome_iff_exists.mp hcursor
    rw [hcursor]
    exact ⟨rfl, hsome⟩

theorem follows_run {evm : Evm W} {world : W} {start : Option Nat} {w : WorkerState}
    (run : IndexerRun c evm world start s w) : Follows c s start w := by
  induction run with
  | @start s chain =>
      refine ⟨minted_run chain, ?_⟩
      cases start with
      | none => exact ⟨0, ⟨rfl, rfl⟩, fun n hn => absurd hn (by simp)⟩
      | some n =>
          refine ⟨n, ⟨holds_emptyPending, rfl, rfl, .inl rfl, commits_nil n⟩, ?_⟩
          intro m hm
          exact ⟨Option.some.inj hm, rfl⟩
  | grow _ hgrows hchain ih =>
      obtain ⟨first, htracks, hstart⟩ := ih.tracks
      exact ⟨minted_run hchain, first, htracks.mono hgrows, hstart⟩
  | response _ _ hok haligned hhandled ih => exact follows_response ih hok haligned hhandled

theorem worker_commits_blocks {evm : Evm W} {world : W} {start : Option Nat} {w : WorkerState}
    (run : IndexerRun c evm world start s w) :
    (∃ first, (∀ n, start = some n → first = n) ∧ (w.cursor = none → w.committed = []) ∧
      ∀ cursor, w.cursor = some cursor →
        Commits (SegmentOf c s) first cursor.blockNumber w.committed) ∧
    ∀ maxBytes resp, 1 ≤ maxBytes → exportBlocks c s w.cursor maxBytes = .ok resp →
      Aligned c s w.cursor maxBytes → ∃ w', handleResponse maxBytes w resp = .ok w' ∧
        (w.cursor = none → ∀ cursor, w'.cursor = some cursor →
          Commits (SegmentOf c s) (Export.startCursor s).blockNumber cursor.blockNumber
            w'.committed) := by
  obtain ⟨hm, first, htracks, hstart⟩ := follows_run run
  refine ⟨⟨first, fun n hn => (hstart n hn).1, ?_, ?_⟩, ?_⟩
  · intro hnone
    rw [Tracks, hnone] at htracks
    exact htracks.2
  · intro cursor hcursor
    rw [Tracks, hcursor] at htracks
    exact htracks.commits
  · intro maxBytes resp _ hok haligned
    obtain ⟨w', hhandled, hcases⟩ := handleResponse_ok hm htracks hok haligned
    refine ⟨w', hhandled, ?_⟩
    intro hnone cursor hcursor
    rcases hcases with ⟨-, rfl⟩ | ⟨-, -, htracks'⟩
    · exact absurd (hnone.symm.trans hcursor) (by simp)
    · rw [hnone, Tracks, hcursor] at htracks'
      exact htracks'.commits

def respond (c : Crypto) (s : StableState W) (maxBytes : Nat) (w : WorkerState) :
    Option (ExportResponse × Except String WorkerState) :=
  (exportBlocks c s w.cursor maxBytes).toOption.map (fun resp => (resp, handleResponse maxBytes w resp))

theorem respond_some {maxBytes : Nat} {w : WorkerState}
    {r : ExportResponse × Except String WorkerState} (h : respond c s maxBytes w = some r) :
    exportBlocks c s w.cursor maxBytes = .ok r.1 ∧ handleResponse maxBytes w r.1 = r.2 := by
  obtain ⟨resp, hresp, rfl⟩ := Option.map_eq_some_iff.mp h
  refine ⟨?_, rfl⟩
  cases hexport : exportBlocks c s w.cursor maxBytes with
  | error e =>
      rw [hexport] at hresp
      exact absurd hresp (by simp [Except.toOption])
  | ok resp' =>
      rw [hexport] at hresp
      rw [Option.some.inj hresp]

theorem aligned_sampleBlocks (n maxBytes : Nat) :
    Aligned sampleCrypto sampleBlocks (some ⟨n, 0, 0⟩) maxBytes := by
  have hempty : sampleBlocks.internalTraces.entries = [] := by decide +kernel
  have hnone (id : TxId) : sampleBlocks.internalTraces.get id = none := by
    rw [OrdMap.get, hempty]
    rfl
  have hbuild (ids : List TxId) : buildInternalTracesPayload sampleBlocks ids = .ok [] := by
    induction ids with
    | nil => rfl
    | cons id ids ih =>
        rw [buildInternalTracesPayload, ih, internalTraceEntry, hnone]
        rfl
  refine ⟨?_, fun h => absurd h (by simp)⟩
  rintro b data out - ⟨p, -, hdata⟩ hne
  exact absurd (Except.ok.inj (hdata.symm.trans (hbuild p.txIds))) hne

theorem sampleBlocks_committed :
    ∃ w, IndexerRun sampleCrypto sampleEvm () (some 1) sampleBlocks w ∧
      w.cursor = some ⟨3, 0, 0⟩ ∧ Commits (SegmentOf sampleCrypto sampleBlocks) 1 3 w.committed := by
  have hrun : (respond sampleCrypto sampleBlocks 100000 ⟨some ⟨1, 0, 0⟩, none, []⟩).any (fun r =>
      r.2.toOption.any (fun w => decide (w.cursor = some ⟨3, 0, 0⟩))) = true := by decide +kernel
  obtain ⟨⟨resp, result⟩, hrespond, hresult⟩ := (Option.any_eq_true _ _).mp hrun
  obtain ⟨w, hw, hcursor⟩ := (Option.any_eq_true _ _).mp hresult
  obtain ⟨hok, hhandled⟩ := respond_some hrespond
  have hcursor : w.cursor = some ⟨3, 0, 0⟩ := of_decide_eq_true hcursor
  have hresult : result = .ok w := by
    cases result with
    | error e => exact absurd hw (by simp [Except.toOption])
    | ok w' => rw [Option.some.inj hw]
  have chain : ChainRun sampleCrypto sampleEvm (fun _ _ => True) (.init ()) sampleBlocks :=
    run_produceSample (run_submitSample 2 (run_produceSample (run_submitSample 1 .start trivial)
      trivial) trivial) trivial
  have hindexed : IndexerRun sampleCrypto sampleEvm () (some 1) sampleBlocks w :=
    (IndexerRun.start chain).response (by decide) hok (aligned_sampleBlocks 1 100000)
      (hhandled.trans hresult)
  obtain ⟨⟨first, hfirst, -, hcommits⟩, -⟩ := worker_commits_blocks hindexed
  refine ⟨w, hindexed, hcursor, ?_⟩
  rw [hfirst 1 rfl] at hcommits
  exact hcommits _ hcursor

theorem pruned_chain_stops_worker :
    ∃ resp e, IndexerRun sampleCrypto sampleEvm () none samplePruned ⟨none, none, []⟩ ∧
      exportBlocks sampleCrypto samplePruned none 100000 = .ok resp ∧
        handleResponse 100000 ⟨none, none, []⟩ resp = .error e := by
  have hstop : (respond sampleCrypto samplePruned 100000 ⟨none, none, []⟩).any (fun r =>
      r.2.toOption.isNone) = true := by decide +kernel
  obtain ⟨⟨resp, result⟩, hrespond, hresult⟩ := (Option.any_eq_true _ _).mp hstop
  obtain ⟨hok, hhandled⟩ := respond_some hrespond
  cases result with
  | ok w => exact absurd hresult (by simp [Except.toOption])
  | error e =>
      have chain : ChainRun sampleCrypto sampleEvm (fun _ _ => True) (.init ()) samplePruned :=
        (run_samplePending (fun _ _ => trivial) (fun _ => trivial)).step trivial
          (.pruneBlocks 1 100 samplePending)
      exact ⟨resp, e, .start chain, hok, hhandled⟩

end Kasane.Indexer
