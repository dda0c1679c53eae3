import Kasane.Exec.InternalTraces

namespace Kasane.Exec.Trace

open Gateway (textBytes textOf_textBytes)

theorem textBytes_injective : Function.Injective textBytes := by
  intro x y h
  have hx := textOf_textBytes x
  rw [h, textOf_textBytes] at hx
  exact (Option.some.inj hx).symm

def segmentChars (segments : List Nat) : List Char :=
  segments.flatMap (fun segment => '_' :: Nat.toDigits 10 segment)

theorem toList_foldl_segments (segments : List Nat) (out : String) :
    (segments.foldl (fun out segment => out.push '_' ++ segment.repr) out).toList =
      out.toList ++ segmentChars segments := by
  induction segments generalizing out with
  | nil => simp [segmentChars]
  | cons segment segments ih =>
      rw [List.foldl_cons, ih]
      simp [segmentChars, Nat.toList_repr]

theorem toList_renderTraceId (segment : Nat) (segments : List Nat) :
    (renderTraceId (segment :: segments)).toList =
      Nat.toDigits 10 segment ++ segmentChars segments := by
  rw [renderTraceId, toList_foldl_segments, Nat.toList_repr]

theorem toDigits_injective {m n : Nat} (h : Nat.toDigits 10 m = Nat.toDigits 10 n) : m = n := by
  have hm := Nat.ofDigitChars_ten_toDigits (n := m)
  rw [h, Nat.ofDigitChars_ten_toDigits] at hm
  exact hm.symm

theorem append_cons_inj {α : Type} {x : α} {first first' rest rest' : List α}
    (hfirst : x ∉ first) (hfirst' : x ∉ first') (h : first ++ x :: rest = first' ++ x :: rest') :
    first = first' ∧ rest = rest' := by
  induction first generalizing first' with
  | nil =>
      cases first' with
      | nil => exact ⟨rfl, (List.cons.inj h).2⟩
      | cons y first' => exact absurd (List.cons.inj h).1 (List.ne_of_not_mem_cons hfirst')
  | cons y first ih =>
      cases first' with
      | nil => exact absurd (List.cons.inj h).1.symm (List.ne_of_not_mem_cons hfirst)
      | cons z first' =>
          obtain ⟨rfl, htail⟩ := List.cons.inj h
          obtain ⟨rfl, hrest⟩ := ih (List.not_mem_of_not_mem_cons hfirst)
            (List.not_mem_of_not_mem_cons hfirst') htail
          exact ⟨rfl, hrest⟩

theorem segments_injective {first first' : Nat} {segments segments' : List Nat}
    (h : Nat.toDigits 10 first ++ segmentChars segments =
      Nat.toDigits 10 first' ++ segmentChars segments') :
    first = first' ∧ segments = segments' := by
  induction segments generalizing first first' segments' with
  | nil =>
      cases segments' with
      | nil => exact ⟨toDigits_injective (by simpa [segmentChars] using h), rfl⟩
      | cons segment' segments' =>
          have hmem : '_' ∈ Nat.toDigits 10 first := by
            rw [segmentChars, List.flatMap_nil, List.append_nil] at h
            simp [h, segmentChars]
          exact absurd hmem Nat.underscore_not_in_toDigits
  | cons segment segments ih =>
      cases segments' with
      | nil =>
          have hmem : '_' ∈ Nat.toDigits 10 first' := by
            rw [segmentChars, segmentChars, List.flatMap_nil, List.append_nil] at h
            simp [← h]
          exact absurd hmem Nat.underscore_not_in_toDigits
      | cons segment' segments' =>
          rw [segmentChars, segmentChars, List.flatMap_cons, List.flatMap_cons, List.cons_append,
            List.cons_append] at h
          obtain ⟨hfirst, hrest⟩ := append_cons_inj Nat.underscore_not_in_toDigits
            Nat.underscore_not_in_toDigits h
          obtain ⟨rfl, rfl⟩ := ih hrest
          exact ⟨toDigits_injective hfirst, rfl⟩

theorem renderTraceId_injective : Function.Injective renderTraceId := by
  intro ids ids' h
  have hchars := congrArg String.toList h
  cases ids with
  | nil =>
      cases ids' with
      | nil => rfl
      | cons segment' segments' =>
          rw [toList_renderTraceId] at hchars
          exact absurd (List.append_eq_nil_iff.mp hchars.symm).1 Nat.toDigits_ne_nil
  | cons segment segments =>
      rw [toList_renderTraceId] at hchars
      cases ids' with
      | nil => exact absurd (List.append_eq_nil_iff.mp hchars).1 Nat.toDigits_ne_nil
      | cons segment' segments' =>
          rw [toList_renderTraceId] at hchars
          obtain ⟨rfl, rfl⟩ := segments_injective hchars
          rfl

end Kasane.Exec.Trace
