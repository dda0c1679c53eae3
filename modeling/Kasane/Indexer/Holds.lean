import Kasane.Indexer.Worker
import Kasane.Lib.SegmentStream

namespace Kasane.Indexer

open BigEndian SegmentStream
open Export (ExportChunk ExportCursor)

variable {Segment Segment' : Nat → Nat → Bytes → Prop} {b : Nat} {p : Pending}

def Kept (Segment : Nat → Nat → Bytes → Prop) (b : Nat) (p : Pending) (k : Nat) : Prop :=
  ∃ data, Segment b k data ∧ p.payloadLens k = data.length ∧ (p.payloadParts k).flatten = data

structure Holds (Segment : Nat → Nat → Bytes → Prop) (b : Nat) (p : Pending) : Prop where
  segment_le : p.segment ≤ 3
  incomplete : p.complete = false
  past : ∀ k < p.segment, Kept Segment b p k
  current : (p.offset = 0 ∧ p.payloadLens p.segment = 0 ∧ p.payloadParts p.segment = []) ∨
    ∃ data, Segment b p.segment data ∧ p.offset ≤ data.length ∧
      p.payloadLens p.segment = data.length ∧
        (p.payloadParts p.segment).flatten = data.take p.offset
  ahead : ∀ k, p.segment < k → p.payloadLens k = 0 ∧ p.payloadParts k = []

structure Finished (Segment : Nat → Nat → Bytes → Prop) (b : Nat) (p : Pending) : Prop where
  complete : p.complete = true
  kept : ∀ k ≤ 3, Kept Segment b p k

def emptyPending (segment offset : Nat) : Pending := ⟨fun _ => [], fun _ => 0, segment, offset, false⟩

theorem holds_emptyPending : Holds Segment b (emptyPending 0 0) where
  segment_le := Nat.zero_le 3
  incomplete := rfl
  past := fun k hk => absurd hk (Nat.not_lt_zero k)
  current := Or.inl ⟨rfl, rfl, rfl⟩
  ahead := fun _ _ => ⟨rfl, rfl⟩

theorem Holds.mono (h : Holds Segment b p) (hsegment : ∀ k data, Segment b k data → Segment' b k data) :
    Holds Segment' b p := by
  refine ⟨h.segment_le, h.incomplete, ?_, ?_, h.ahead⟩
  · intro k hk
    obtain ⟨data, hdata, hlen, hparts⟩ := h.past k hk
    exact ⟨data, hsegment k data hdata, hlen, hparts⟩
  · rcases h.current with hnone | ⟨data, hdata, hbound, hlen, hparts⟩
    · exact .inl hnone
    · exact .inr ⟨data, hsegment _ data hdata, hbound, hlen, hparts⟩

def chunkOf (s : Piece UInt8) : ExportChunk := ⟨s.segment, s.start, s.items, s.size⟩

-- the pending block after the bytes of a chunk, before its segment is left
def Pending.takes (p : Pending) (data : Bytes) (n : Nat) : Pending where
  payloadParts := if n = 0 then p.payloadParts else
    Function.update p.payloadParts p.segment
      (p.payloadParts p.segment ++ [(data.drop p.offset).take n])
  payloadLens := Function.update p.payloadLens p.segment data.length
  segment := p.segment
  offset := p.offset + n
  complete := p.complete

theorem ensurePayloadLen_ok {len : Nat} (hle : p.segment ≤ 3)
    (hlen : p.payloadLens p.segment = 0 ∨ p.payloadLens p.segment = len) :
    ensurePayloadLen p len =
      .ok (len, { p with payloadLens := Function.update p.payloadLens p.segment len }) := by
  rw [ensurePayloadLen]
  by_cases hzero : p.payloadLens p.segment = 0
  · rw [if_pos ⟨hle, hzero⟩]
  · obtain hlen := hlen.resolve_left hzero
    have hsame : Function.update p.payloadLens p.segment len = p.payloadLens := by
      rw [← hlen, Function.update_eq_self]
    rw [if_neg (fun h => hzero h.2), if_neg (by omega), hsame, hlen]

theorem takeBytes_ok {data : Bytes} {n : Nat} (hbound : p.offset + n ≤ data.length)
    (hprogress : n = 0 → p.offset = data.length) :
    takeBytes { p with payloadLens := Function.update p.payloadLens p.segment data.length }
      ((data.drop p.offset).take n) data.length = .ok (p.takes data n) := by
  have hlen : ((data.drop p.offset).take n).length = n := by
    rw [List.length_take, List.length_drop]
    omega
  rw [takeBytes, Pending.takes]
  dsimp only
  by_cases hzero : n = 0
  · subst hzero
    rw [if_pos List.take_zero, if_neg (not_not_intro (hprogress rfl)), if_pos rfl]
    rfl
  · have hne : (data.drop p.offset).take n ≠ [] := by
      intro hnil
      rw [hnil] at hlen
      exact hzero hlen.symm
    rw [if_neg hne, hlen, if_neg (not_lt.mpr hbound), if_neg hzero]

variable {data : Bytes} {n : Nat}

theorem Holds.applyChunk_eq (h : Holds Segment b p)
    (functional : ∀ b k data data', Segment b k data → Segment b k data' → data = data')
    (hdata : Segment b p.segment data) (hbound : p.offset + n ≤ data.length)
    (hprogress : n = 0 → p.offset = data.length) :
    applyChunk p ⟨p.segment, p.offset, (data.drop p.offset).take n, data.length⟩ =
      .ok (leaveSegment (p.takes data n) data.length) := by
  have hlens : p.payloadLens p.segment = 0 ∨ p.payloadLens p.segment = data.length := by
    rcases h.current with ⟨-, hzero, -⟩ | ⟨data', hdata', -, hlen, -⟩
    · exact .inl hzero
    · obtain rfl := functional _ _ _ _ hdata hdata'
      exact .inr hlen
  rw [applyChunk, if_neg (by simp [h.incomplete]), if_neg (not_not_intro rfl),
    if_neg (not_not_intro rfl), ensurePayloadLen_ok h.segment_le hlens]
  simp only [bind, Except.bind]
  rw [if_neg (by omega), takeBytes_ok hbound hprogress]
  rfl

theorem Holds.takes_parts (h : Holds Segment b p)
    (functional : ∀ b k data data', Segment b k data → Segment b k data' → data = data')
    (hdata : Segment b p.segment data) :
    ((p.takes data n).payloadParts p.segment).flatten = data.take (p.offset + n) := by
  have hold : (p.payloadParts p.segment).flatten = data.take p.offset := by
    rcases h.current with ⟨hzero, -, hparts⟩ | ⟨data', hdata', -, -, hparts⟩
    · rw [hparts, hzero]
      rfl
    · obtain rfl := functional _ _ _ _ hdata hdata'
      exact hparts
  rw [Pending.takes]
  dsimp only
  split_ifs with hn
  · rw [hold, hn, Nat.add_zero]
  · rw [Function.update_self, List.flatten_append, List.flatten_singleton, hold]
    exact List.take_add.symm

theorem Pending.takes_other (data : Bytes) (n : Nat) {k : Nat} (hk : k ≠ p.segment) :
    (p.takes data n).payloadParts k = p.payloadParts k ∧
      (p.takes data n).payloadLens k = p.payloadLens k := by
  refine ⟨?_, Function.update_of_ne hk _ _⟩
  rw [takes]
  dsimp only
  split_ifs
  · rfl
  · exact Function.update_of_ne hk _ _

section

variable (functional : ∀ b k data data', Segment b k data → Segment b k data' → data = data')
include functional

theorem Holds.kept_takes (h : Holds Segment b p) (hdata : Segment b p.segment data)
    (hend : p.offset + n = data.length) :
    ∀ k ≤ p.segment, Kept Segment b (p.takes data n) k := by
  intro k hk
  rcases Nat.eq_or_lt_of_le hk with rfl | hlt
  · refine ⟨data, hdata, Function.update_self .., ?_⟩
    rw [h.takes_parts functional hdata, hend, List.take_length]
  · obtain ⟨hparts, hlens⟩ := Pending.takes_other (p := p) data n (Nat.ne_of_lt hlt)
    obtain ⟨data', hdata', hlen', hparts'⟩ := h.past k hlt
    exact ⟨data', hdata', hlens.trans hlen', (congrArg List.flatten hparts).trans hparts'⟩

theorem Holds.within (h : Holds Segment b p) (hdata : Segment b p.segment data)
    (hbound : p.offset + n < data.length) :
    Holds Segment b (leaveSegment (p.takes data n) data.length) := by
  have hshort : (p.takes data n).offset ≠ data.length := Nat.ne_of_lt hbound
  rw [leaveSegment, if_neg hshort]
  refine ⟨h.segment_le, h.incomplete, ?_, ?_, ?_⟩
  · intro k hk
    obtain ⟨hparts, hlens⟩ := Pending.takes_other (p := p) data n (Nat.ne_of_lt hk)
    obtain ⟨data', hdata', hlen', hparts'⟩ := h.past k hk
    exact ⟨data', hdata', hlens.trans hlen', (congrArg List.flatten hparts).trans hparts'⟩
  · exact .inr ⟨data, hdata, Nat.le_of_lt hbound, Function.update_self ..,
      h.takes_parts functional hdata⟩
  · intro k hk
    obtain ⟨hparts, hlens⟩ := Pending.takes_other (p := p) data n (Nat.ne_of_gt hk)
    obtain ⟨hzero, hnone⟩ := h.ahead k hk
    exact ⟨hlens.trans hzero, hparts.trans hnone⟩

theorem Holds.leaves (h : Holds Segment b p) (hdata : Segment b p.segment data)
    (hend : p.offset + n = data.length) (hseg : p.segment ≠ 3) :
    Holds Segment b (leaveSegment (p.takes data n) data.length) ∧
      (leaveSegment (p.takes data n) data.length).segment = p.segment + 1 ∧
        (leaveSegment (p.takes data n) data.length).offset = 0 := by
  have hahead {k : Nat} (hk : p.segment < k) : (p.takes data n).payloadLens k = 0 ∧
      (p.takes data n).payloadParts k = [] := by
    obtain ⟨hparts, hlens⟩ := Pending.takes_other (p := p) data n (Nat.ne_of_gt hk)
    obtain ⟨hzero, hnone⟩ := h.ahead k hk
    exact ⟨hlens.trans hzero, hparts.trans hnone⟩
  have hle := h.segment_le
  have hfull : (p.takes data n).offset = data.length := hend
  have hbelow : (p.takes data n).segment ≠ 3 := hseg
  rw [leaveSegment, if_pos hfull, if_neg hbelow]
  refine ⟨⟨?_, h.incomplete, ?_, ?_, ?_⟩, rfl, rfl⟩
  · show p.segment + 1 ≤ 3
    omega
  · intro k hk
    exact h.kept_takes functional hdata hend k (Nat.le_of_lt_succ hk)
  · exact .inl ⟨rfl, hahead (Nat.lt_succ_self p.segment)⟩
  · intro k hk
    exact hahead (Nat.lt_of_succ_lt hk)

theorem Holds.finishes (h : Holds Segment b p) (hdata : Segment b p.segment data)
    (hend : p.offset + n = data.length) (hseg : p.segment = 3) :
    Finished Segment b (leaveSegment (p.takes data n) data.length) := by
  have hfull : (p.takes data n).offset = data.length := hend
  have hlast : (p.takes data n).segment = 3 := hseg
  rw [leaveSegment, if_pos hfull, if_pos hlast]
  refine ⟨rfl, ?_⟩
  intro k hk
  exact h.kept_takes functional hdata hend k (by rw [hseg]; exact hk)

theorem Holds.closes (h : Holds Segment b p) (hseg : p.segment = 3) (hoffset : p.offset = 0)
    (hempty : Segment b 3 []) : Finished Segment b { p with complete := true } := by
  refine ⟨rfl, ?_⟩
  intro k hk
  rcases Nat.eq_or_lt_of_le hk with rfl | hlt
  · rcases h.current with ⟨-, hlen, hparts⟩ | ⟨data, hdata, -, hlen, hparts⟩
    · rw [hseg] at hlen hparts
      exact ⟨[], hempty, hlen, by rw [hparts]; rfl⟩
    · rw [hseg] at hdata hlen hparts
      obtain rfl := functional _ _ _ _ hdata hempty
      exact ⟨[], hempty, hlen, by rw [hparts, hoffset]; rfl⟩
  · exact h.past k (by rw [hseg]; exact hlt)

end

theorem Kept.finalizePayload {k : Nat} (h : Kept Segment b p k) :
    ∃ data, Segment b k data ∧ finalizePayload p k = .ok data := by
  obtain ⟨data, hdata, hlen, hparts⟩ := h
  refine ⟨data, hdata, ?_⟩
  rw [Indexer.finalizePayload, hlen]
  by_cases hzero : data.length = 0
  · rw [if_pos hzero, List.eq_nil_of_length_eq_zero hzero]
  · have hne : p.payloadParts k ≠ [] := by
      intro hnil
      rw [hnil] at hparts
      rw [← hparts] at hzero
      exact hzero rfl
    rw [if_neg hzero, if_neg hne, bufferConcat, hparts, List.take_left]

def Assembled (Segment : Nat → Nat → Bytes → Prop) (b : Nat) (payloads : List Bytes) : Prop :=
  ∃ block receipts txIndex internalTraces, Segment b 0 block ∧ Segment b 1 receipts ∧
    Segment b 2 txIndex ∧ Segment b 3 internalTraces ∧
      payloads = [block, receipts, txIndex, internalTraces]

theorem Finished.finalizePayloads (h : Finished Segment b p) :
    ∃ payloads, Assembled Segment b payloads ∧ finalizePayloads p = .ok payloads := by
  obtain ⟨block, hblock, hblock'⟩ := (h.kept 0 (by omega)).finalizePayload
  obtain ⟨receipts, hreceipts, hreceipts'⟩ := (h.kept 1 (by omega)).finalizePayload
  obtain ⟨txIndex, hindex, hindex'⟩ := (h.kept 2 (by omega)).finalizePayload
  obtain ⟨traces, htraces, htraces'⟩ := (h.kept 3 (by omega)).finalizePayload
  refine ⟨_, ⟨block, receipts, txIndex, traces, hblock, hreceipts, hindex, htraces, rfl⟩, ?_⟩
  rw [Indexer.finalizePayloads, hblock', hreceipts', hindex', htraces']
  rfl

end Kasane.Indexer
