import Mathlib.Algebra.Ring.Nat
import Mathlib.Data.List.Basic
import Mathlib.Order.Basic
import Mathlib.Order.Lattice
import Mathlib.Tactic.SplitIfs

namespace SegmentStream

structure Position where
  block : Nat
  segment : Nat
  offset : Nat
deriving DecidableEq

def Position.Before (p q : Position) : Prop :=
  p.block < q.block ∨ p.block = q.block ∧
    (p.segment < q.segment ∨ p.segment = q.segment ∧ p.offset < q.offset)

structure Piece (A : Type) where
  block : Nat
  segment : Nat
  start : Nat
  items : List A
  size : Nat

variable {A : Type}

def Piece.NotAfter (p q : Piece A) : Prop :=
  p.block < q.block ∨ p.block = q.block ∧ p.segment ≤ q.segment

def joined (out : List (Piece A)) (b k : Nat) : List A :=
  (out.filter (fun p => decide (p.block = b ∧ p.segment = k))).flatMap Piece.items

-- a stream goes through the segments in order and leaves a segment only at its end
inductive Streams (Segment : Nat → Nat → List A → Prop) (last : Nat) (p : Position) :
    List (Piece A) → Position → Prop
  | start : Streams Segment last p [] p
  | piece {out : List (Piece A)} {b k o n : Nat} {data : List A}
      (run : Streams Segment last p out ⟨b, k, o⟩) (segment : Segment b k data)
      (bound : o + n ≤ data.length) (progress : n = 0 → o = data.length) :
      Streams Segment last p (out ++ [⟨b, k, o, (data.drop o).take n, data.length⟩]) ⟨b, k, o + n⟩
  | nextSegment {out : List (Piece A)} {b k : Nat} {data : List A}
      (run : Streams Segment last p out ⟨b, k, data.length⟩) (segment : Segment b k data)
      (below : k < last) : Streams Segment last p out ⟨b, k + 1, 0⟩
  | nextBlock {out : List (Piece A)} {b : Nat} {data : List A}
      (run : Streams Segment last p out ⟨b, last, data.length⟩) (segment : Segment b last data) :
      Streams Segment last p out ⟨b + 1, 0, 0⟩

theorem joined_nil (b k : Nat) : joined ([] : List (Piece A)) b k = [] := rfl

theorem joined_append (out out' : List (Piece A)) (b k : Nat) :
    joined (out ++ out') b k = joined out b k ++ joined out' b k := by
  rw [joined, List.filter_append, List.flatMap_append]
  rfl

theorem joined_piece_self {p : Piece A} {b k : Nat} (hb : p.block = b) (hk : p.segment = k) :
    joined [p] b k = p.items := by
  simp [joined, hb, hk]

theorem joined_piece_other {p : Piece A} {b k : Nat} (h : ¬ (p.block = b ∧ p.segment = k)) :
    joined [p] b k = [] := by
  simp [joined, h]

variable {Segment Segment' : Nat → Nat → List A → Prop} {last : Nat} {p q r : Position}
  {out out' : List (Piece A)}

theorem Streams.mono (h : Streams Segment last p out q)
    (hsegment : ∀ b k data, Segment b k data → Segment' b k data) :
    Streams Segment' last p out q := by
  induction h with
  | start => exact .start
  | piece _ hdata hbound hprogress ih => exact ih.piece (hsegment _ _ _ hdata) hbound hprogress
  | nextSegment _ hdata hbelow ih => exact ih.nextSegment (hsegment _ _ _ hdata) hbelow
  | nextBlock _ hdata ih => exact ih.nextBlock (hsegment _ _ _ hdata)

theorem Streams.trans (h : Streams Segment last p out q) (h' : Streams Segment last q out' r) :
    Streams Segment last p (out ++ out') r := by
  induction h' with
  | start =>
      rw [List.append_nil]
      exact h
  | piece _ hdata hbound hprogress ih =>
      rw [← List.append_assoc]
      exact ih.piece hdata hbound hprogress
  | nextSegment _ hdata hbelow ih => exact ih.nextSegment hdata hbelow
  | nextBlock _ hdata ih => exact ih.nextBlock hdata

theorem Position.Before.trans (h : p.Before q) (h' : q.Before r) : p.Before r := by
  unfold Before at h h' ⊢
  omega

theorem before_nextSegment (b k o : Nat) : Position.Before ⟨b, k, o⟩ ⟨b, k + 1, 0⟩ :=
  Or.inr ⟨rfl, Or.inl (Nat.lt_succ_self k)⟩

theorem before_nextBlock (b k o : Nat) : Position.Before ⟨b, k, o⟩ ⟨b + 1, 0, 0⟩ :=
  Or.inl (Nat.lt_succ_self b)

theorem before_offset {b k o n : Nat} (h : 0 < n) : Position.Before ⟨b, k, o⟩ ⟨b, k, o + n⟩ :=
  Or.inr ⟨rfl, Or.inr ⟨rfl, Nat.lt_add_of_pos_right h⟩⟩

theorem Streams.before_or_eq (h : Streams Segment last p out q) : q = p ∨ p.Before q := by
  have hstep {q r : Position} (hbefore : q.Before r) (ih : q = p ∨ p.Before q) : p.Before r := by
    rcases ih with rfl | ih
    · exact hbefore
    · exact ih.trans hbefore
  induction h with
  | start => exact .inl rfl
  | @piece out b k o n data _ _ _ _ ih =>
      rcases Nat.eq_zero_or_pos n with rfl | hn
      · exact ih
      · exact .inr (hstep (before_offset hn) ih)
  | nextSegment _ _ _ ih => exact .inr (hstep (before_nextSegment _ _ _) ih)
  | nextBlock _ _ ih => exact .inr (hstep (before_nextBlock _ _ _) ih)

theorem Streams.advances (h : Streams Segment last p out q) (hne : out.flatMap Piece.items ≠ []) :
    p.Before q := by
  induction h with
  | start => exact absurd rfl hne
  | @piece out b k o n data run _ _ _ ih =>
      rcases Nat.eq_zero_or_pos n with rfl | hn
      · apply ih
        simpa using hne
      · rcases run.before_or_eq with heq | hbefore
        · rw [← heq]
          exact before_offset hn
        · exact hbefore.trans (before_offset hn)
  | nextSegment _ _ _ ih => exact (ih hne).trans (before_nextSegment _ _ _)
  | nextBlock _ _ ih => exact (ih hne).trans (before_nextBlock _ _ _)

theorem Streams.uncons {s : Piece A} (h : Streams Segment last p (s :: out) q) :
    ∃ data n, Streams Segment last p [] ⟨s.block, s.segment, s.start⟩ ∧
      Segment s.block s.segment data ∧ s.items = (data.drop s.start).take n ∧
        s.size = data.length ∧ s.start + n ≤ data.length ∧ (n = 0 → s.start = data.length) ∧
          Streams Segment last ⟨s.block, s.segment, s.start + n⟩ out q := by
  generalize hl : s :: out = l at h
  induction h generalizing out with
  | start => exact absurd hl (by simp)
  | @piece out' b k o n data run hdata hbound hprogress ih =>
      cases out' with
      | nil =>
          obtain ⟨rfl, rfl⟩ := List.cons.inj hl
          exact ⟨data, n, run, hdata, rfl, rfl, hbound, hprogress, .start⟩
      | cons s' out' =>
          obtain ⟨rfl, rfl⟩ := List.cons.inj hl
          obtain ⟨data', n', hsilent, hdata', hitems, hsize, hbound', hprogress', hrest⟩ := ih rfl
          exact ⟨data', n', hsilent, hdata', hitems, hsize, hbound', hprogress',
            hrest.piece hdata hbound hprogress⟩
  | nextSegment _ hdata hbelow ih =>
      obtain ⟨data', n', hsilent, hdata', hitems, hsize, hbound', hprogress', hrest⟩ := ih hl
      exact ⟨data', n', hsilent, hdata', hitems, hsize, hbound', hprogress',
        hrest.nextSegment hdata hbelow⟩
  | nextBlock _ hdata ih =>
      obtain ⟨data', n', hsilent, hdata', hitems, hsize, hbound', hprogress', hrest⟩ := ih hl
      exact ⟨data', n', hsilent, hdata', hitems, hsize, hbound', hprogress', hrest.nextBlock hdata⟩

-- how far a stream gets without a piece, when only a last segment may be empty
inductive Silent (Segment : Nat → Nat → List A → Prop) (last : Nat) (p : Position) : Position → Prop
  | stay : Silent Segment last p p
  | nextSegment {data : List A} (segment : Segment p.block p.segment data)
      (ended : p.offset = data.length) (below : p.segment < last) :
      Silent Segment last p ⟨p.block, p.segment + 1, 0⟩
  | nextBlock {data : List A} (segment : Segment p.block p.segment data)
      (ended : p.offset = data.length) (final : p.segment = last) :
      Silent Segment last p ⟨p.block + 1, 0, 0⟩
  | emptyLast {data : List A} (segment : Segment p.block p.segment data)
      (ended : p.offset = data.length) (before : p.segment + 1 = last)
      (empty : Segment p.block last []) : Silent Segment last p ⟨p.block + 1, 0, 0⟩

theorem Streams.silent (hpos : 0 < last)
    (hfilled : ∀ b k data, Segment b k data → k < last → data ≠ [])
    (h : Streams Segment last p [] q) : Silent Segment last p q := by
  have hempty {b k : Nat} {data : List A} (hdata : Segment b k data) (hk : k < last) :
      data.length ≠ 0 := fun hzero => hfilled b k data hdata hk (List.eq_nil_of_length_eq_zero hzero)
  generalize hl : ([] : List (Piece A)) = l at h
  induction h with
  | start => exact .stay
  | piece => exact absurd hl (by simp)
  | @nextSegment out b k data _ hdata hbelow ih =>
      generalize hq : (⟨b, k, data.length⟩ : Position) = q at ih
      cases ih hl with
      | stay =>
          subst hq
          exact .nextSegment hdata rfl hbelow
      | nextSegment =>
          obtain ⟨-, -, hzero⟩ := Position.mk.inj hq
          exact absurd hzero (hempty hdata hbelow)
      | nextBlock =>
          obtain ⟨-, -, hzero⟩ := Position.mk.inj hq
          exact absurd hzero (hempty hdata hbelow)
      | emptyLast =>
          obtain ⟨-, -, hzero⟩ := Position.mk.inj hq
          exact absurd hzero (hempty hdata hbelow)
  | @nextBlock out b data _ hdata ih =>
      generalize hq : (⟨b, last, data.length⟩ : Position) = q at ih
      cases ih hl with
      | stay =>
          subst hq
          exact .nextBlock hdata rfl rfl
      | nextSegment hsegment hended hbelow =>
          obtain ⟨rfl, hlast, hzero⟩ := Position.mk.inj hq
          rw [List.eq_nil_of_length_eq_zero hzero] at hdata
          exact .emptyLast hsegment hended hlast.symm hdata
      | nextBlock =>
          obtain ⟨-, hlast, -⟩ := Position.mk.inj hq
          omega
      | emptyLast =>
          obtain ⟨-, hlast, -⟩ := Position.mk.inj hq
          omega

theorem Streams.length_of_block {lens : Nat → Nat} {first : Nat}
    (hlens : ∀ k data, Segment first k data → data.length = lens k)
    (h : Streams Segment last ⟨first, 0, 0⟩ out q) (hblock : q.block = first) :
    (out.flatMap Piece.items).length = ((List.range q.segment).map lens).sum + q.offset := by
  have hfirst {r : Position} {out : List (Piece A)} (h : Streams Segment last ⟨first, 0, 0⟩ out r) :
      first ≤ r.block := by
    rcases h.before_or_eq with rfl | hbefore
    · exact Nat.le_refl first
    · unfold Position.Before at hbefore
      dsimp only at hbefore
      omega
  induction h with
  | start => rfl
  | @piece out b k o n data _ hdata hbound _ ih =>
      rw [List.flatMap_append, List.length_append, ih hblock]
      simp only [List.flatMap_cons, List.flatMap_nil, List.append_nil, List.length_take,
        List.length_drop]
      omega
  | @nextSegment out b k data _ hdata _ ih =>
      dsimp only at hblock
      subst hblock
      have hlen := hlens k data hdata
      rw [ih rfl, List.range_succ, List.map_append, List.sum_append, List.map_singleton,
        List.sum_singleton, ← hlen]
      rfl
  | nextBlock run _ _ =>
      have hle := hfirst run
      dsimp only at hblock hle
      omega

structure Delivered (Segment : Nat → Nat → List A → Prop) (last first : Nat) (out : List (Piece A))
    (q : Position) : Prop where
  segment_le : q.segment ≤ last
  passed : ∀ b k, first ≤ b → k ≤ last → (b < q.block ∨ b = q.block ∧ k < q.segment) →
    ∃ data, Segment b k data ∧ joined out b k = data
  reached : ∀ data, Segment q.block q.segment data →
    q.offset ≤ data.length ∧ joined out q.block q.segment = data.take q.offset
  ahead : ∀ b k, (q.block < b ∨ q.block = b ∧ q.segment < k) → joined out b k = []
  placed : ∀ s ∈ out, s.block < q.block ∨ s.block = q.block ∧ s.segment ≤ q.segment
  ordered : out.Pairwise Piece.NotAfter
  contiguous : ∀ pre s post, out = pre ++ s :: post → s.start = (joined pre s.block s.segment).length

theorem delivered_start (first : Nat) : Delivered Segment last first [] ⟨first, 0, 0⟩ where
  segment_le := Nat.zero_le last
  passed := by
    intro b k hfirst _ hbefore
    dsimp only at hbefore
    omega
  reached := fun data _ => ⟨Nat.zero_le _, rfl⟩
  ahead := fun _ _ _ => rfl
  placed := fun s hs => absurd hs List.not_mem_nil
  ordered := List.Pairwise.nil
  contiguous := by
    intro pre s post h
    exact absurd h (by simp)

section

variable {first b k o n : Nat} {data : List A}

theorem Delivered.nextSegment (h : Delivered Segment last first out ⟨b, k, data.length⟩)
    (hdata : Segment b k data) (hbelow : k < last) :
    Delivered Segment last first out ⟨b, k + 1, 0⟩ := by
  obtain ⟨-, hjoined⟩ := h.reached data hdata
  rw [List.take_length] at hjoined
  refine ⟨hbelow, ?_, ?_, ?_, ?_, h.ordered, h.contiguous⟩
  · intro b' k' hfirst hlast hbefore
    by_cases hself : b' = b ∧ k' = k
    · obtain ⟨rfl, rfl⟩ := hself
      exact ⟨data, hdata, hjoined⟩
    · exact h.passed b' k' hfirst hlast (by dsimp only at hbefore ⊢; omega)
  · intro data' _
    exact ⟨Nat.zero_le _, h.ahead b (k + 1) (Or.inr ⟨rfl, Nat.lt_succ_self k⟩)⟩
  · intro b' k' hahead
    exact h.ahead b' k' (by dsimp only at hahead ⊢; omega)
  · intro s hs
    have hplaced := h.placed s hs
    dsimp only at hplaced ⊢
    omega

theorem Delivered.nextBlock (h : Delivered Segment last first out ⟨b, last, data.length⟩)
    (hdata : Segment b last data) : Delivered Segment last first out ⟨b + 1, 0, 0⟩ := by
  obtain ⟨-, hjoined⟩ := h.reached data hdata
  rw [List.take_length] at hjoined
  refine ⟨Nat.zero_le last, ?_, ?_, ?_, ?_, h.ordered, h.contiguous⟩
  · intro b' k' hfirst hlast hbefore
    by_cases hself : b' = b ∧ k' = last
    · obtain ⟨rfl, rfl⟩ := hself
      exact ⟨data, hdata, hjoined⟩
    · exact h.passed b' k' hfirst hlast (by dsimp only at hbefore ⊢; omega)
  · intro data' _
    exact ⟨Nat.zero_le _, h.ahead (b + 1) 0 (Or.inl (Nat.lt_succ_self b))⟩
  · intro b' k' hahead
    exact h.ahead b' k' (by dsimp only at hahead ⊢; omega)
  · intro s hs
    have hplaced := h.placed s hs
    dsimp only at hplaced ⊢
    omega

variable (functional : ∀ b k data data', Segment b k data → Segment b k data' → data = data')
include functional

theorem Delivered.piece (h : Delivered Segment last first out ⟨b, k, o⟩) (hdata : Segment b k data)
    (hbound : o + n ≤ data.length) :
    Delivered Segment last first (out ++ [⟨b, k, o, (data.drop o).take n, data.length⟩])
      ⟨b, k, o + n⟩ := by
  obtain ⟨ho, hjoined⟩ := h.reached data hdata
  refine ⟨h.segment_le, ?_, ?_, ?_, ?_, ?_, ?_⟩
  · intro b' k' hfirst hlast hbefore
    rw [joined_append, joined_piece_other (by dsimp only at hbefore ⊢; omega), List.append_nil]
    exact h.passed b' k' hfirst hlast hbefore
  · intro data' hdata'
    obtain rfl := functional _ _ _ _ hdata hdata'
    refine ⟨hbound, ?_⟩
    rw [joined_append, joined_piece_self rfl rfl, hjoined]
    exact List.take_add.symm
  · intro b' k' hahead
    rw [joined_append, joined_piece_other (by dsimp only at hahead ⊢; omega), List.append_nil]
    exact h.ahead b' k' hahead
  · intro s hs
    rcases List.mem_append.mp hs with hold | hnew
    · exact h.placed s hold
    · rw [List.mem_singleton] at hnew
      subst hnew
      exact Or.inr ⟨rfl, le_refl k⟩
  · refine List.pairwise_append.mpr ⟨h.ordered, List.pairwise_singleton _ _, ?_⟩
    intro s hs s' hs'
    rw [List.mem_singleton] at hs'
    subst hs'
    exact h.placed s hs
  · intro pre s post heq
    rcases List.eq_nil_or_concat' post with rfl | ⟨post', s', rfl⟩
    · obtain ⟨rfl, hs⟩ := List.append_inj' heq rfl
      obtain rfl := List.singleton_inj.mp hs
      dsimp only
      rw [hjoined, List.length_take]
      exact (min_eq_left ho).symm
    · rw [← List.cons_append, ← List.append_assoc] at heq
      exact h.contiguous pre s post' (List.append_inj' heq rfl).1

theorem Streams.delivered (h : Streams Segment last p out q)
    (hstart : Delivered Segment last first out' p) :
    Delivered Segment last first (out' ++ out) q := by
  induction h with
  | start =>
      rw [List.append_nil]
      exact hstart
  | piece _ hdata hbound _ ih =>
      rw [← List.append_assoc]
      exact ih.piece functional hdata hbound
  | nextSegment _ hdata hbelow ih => exact ih.nextSegment hdata hbelow
  | nextBlock _ hdata ih => exact ih.nextBlock hdata

end

end SegmentStream
