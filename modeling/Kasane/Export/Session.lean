import Kasane.Chain.PendingIndexes
import Kasane.Export.Streams

namespace Kasane.Export

open BigEndian Codec Word Chain SegmentStream

variable {W : Type} {c : Crypto} {s t : StableState W}

structure Grows (c : Crypto) (s t : StableState W) : Prop where
  head : s.head.number ≤ t.head.number
  kept : ∀ b k data, SegmentOf c s b k data → SegmentOf c t b k data

inductive ExportSession (c : Crypto) (first : Nat) :
    StableState W → ExportCursor → List (Piece UInt8) → Prop
  | start (s : StableState W) : ExportSession c first s ⟨first, 0, 0⟩ []
  | grow {s t : StableState W} {cursor : ExportCursor} {out : List (Piece UInt8)}
      (session : ExportSession c first s cursor out) (grows : Grows c s t) :
      ExportSession c first t cursor out
  | call {s : StableState W} {cursor next : ExportCursor} {out : List (Piece UInt8)}
      {maxBytes : Nat} {resp : ExportResponse} (session : ExportSession c first s cursor out)
      (pos : 1 ≤ maxBytes) (ok : exportBlocks c s (some cursor) maxBytes = .ok resp)
      (follow : resp.nextCursor = some next) :
      ExportSession c first s next (out ++ placed cursor.blockNumber resp.chunks)

theorem Responds.advances {cursor next : ExportCursor} {maxBytes : Nat} {resp : ExportResponse}
    (h : Responds c s cursor maxBytes resp next) (hne : resp.chunks ≠ []) :
    cursor.position.Before next.position := by
  apply h.streams.advances
  intro hnone
  have hlen := items_placed cursor.blockNumber resp.chunks
  rw [hnone] at hlen
  exact h.emits hne hlen.symm

theorem session_streams {first : Nat} {cursor : ExportCursor} {out : List (Piece UInt8)}
    (session : ExportSession c first s cursor out) :
    Streams (SegmentOf c s) 3 ⟨first, 0, 0⟩ out cursor.position := by
  induction session with
  | start => exact .start
  | grow _ hgrows ih => exact ih.mono hgrows.kept
  | call _ _ hok hfollow ih =>
      obtain ⟨next, hresponds⟩ := exportBlocks_responds hok
      obtain rfl := Option.some.inj (hresponds.next_eq.symm.trans hfollow)
      exact ih.trans hresponds.streams

theorem export_delivers_segments {first : Nat} {cursor : ExportCursor} {out : List (Piece UInt8)}
    (session : ExportSession c first s cursor out) :
    Delivered (SegmentOf c s) 3 first out cursor.position ∧
      ∀ maxBytes resp, 1 ≤ maxBytes → exportBlocks c s (some cursor) maxBytes = .ok resp →
        emittedBytes resp.chunks ≤ maxBytes ∧ ∃ next, resp.nextCursor = some next ∧
          (resp.chunks ≠ [] → cursor.position.Before next.position) := by
  refine ⟨?_, ?_⟩
  · have hstreams := session_streams session
    exact hstreams.delivered segmentOf_functional (delivered_start first)
  · intro maxBytes resp _ hok
    obtain ⟨next, hresponds⟩ := exportBlocks_responds hok
    exact ⟨hresponds.within.trans (byteBudget_le maxBytes), next, hresponds.next_eq, hresponds.advances⟩

def exportAll (c : Crypto) (s : StableState W) :
    List Nat → ExportCursor → List (Piece UInt8) → Option (ExportCursor × List (Piece UInt8))
  | [], cursor, out => some (cursor, out)
  | maxBytes :: rest, cursor, out =>
      match exportBlocks c s (some cursor) maxBytes with
      | .ok ⟨chunks, some next⟩ => exportAll c s rest next (out ++ placed cursor.blockNumber chunks)
      | _ => none

theorem session_exportAll {first : Nat} {cursor : ExportCursor} {out : List (Piece UInt8)}
    {budgets : List Nat} {r : ExportCursor × List (Piece UInt8)} (hpos : ∀ n ∈ budgets, 1 ≤ n)
    (session : ExportSession c first s cursor out) (h : exportAll c s budgets cursor out = some r) :
    ExportSession c first s r.1 r.2 := by
  induction budgets generalizing cursor out with
  | nil =>
      obtain rfl := Option.some.inj h
      exact session
  | cons maxBytes budgets ih =>
      rw [exportAll] at h
      split at h
      · rename_i chunks next hok
        have hrest : ∀ n ∈ budgets, 1 ≤ n := fun n hn => hpos n (List.mem_cons_of_mem _ hn)
        have hcall := session.call (hpos maxBytes (List.mem_cons_self ..)) hok rfl
        exact ih hrest hcall h
      · exact absurd h (by simp)

theorem sampleBlocks_delivered :
    ∃ out, ExportSession sampleCrypto 1 sampleBlocks ⟨3, 0, 0⟩ out ∧
      Delivered (SegmentOf sampleCrypto sampleBlocks) 3 1 out ⟨3, 0, 0⟩ := by
  have hexported : (exportAll sampleCrypto sampleBlocks [500, 100000] ⟨1, 0, 0⟩ []).any
      (fun r => decide (r.1 = ⟨3, 0, 0⟩)) = true := by decide +kernel
  obtain ⟨⟨cursor, out⟩, hout, hcursor⟩ := (Option.any_eq_true _ _).mp hexported
  obtain rfl : cursor = ⟨3, 0, 0⟩ := of_decide_eq_true hcursor
  have hsession := session_exportAll (by decide) (.start sampleBlocks) hout
  exact ⟨out, hsession, (export_delivers_segments hsession).1⟩

end Kasane.Export
