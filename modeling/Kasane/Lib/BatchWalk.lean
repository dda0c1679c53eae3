import Kasane.Lib.OrdMap
import Kasane.Lib.Word
import Mathlib.Algebra.BigOperators.Group.List.Basic

namespace BatchWalk

open Word

variable {K V S : Type} [LinearOrder K]

def rangeAfter (m : OrdMap K V) : Option K → List (K × V)
  | none => m.entries
  | some key => m.entries.filter (fun e => decide (key < e.1))

def batchDone (processed limit : Nat) (iteratorExhausted : Bool) : Bool :=
  iteratorExhausted || decide (processed < limit)

def batchLoop (step : S → K × V → S) :
    Nat → List (K × V) → S → Option K → Nat → S × Option K × Nat × Bool
  | 0, _, s, lastKey, processed => (s, lastKey, processed, false)
  | _ + 1, [], s, lastKey, processed => (s, lastKey, processed, true)
  | n + 1, e :: rest, s, _, processed =>
      batchLoop step n rest (step s e) (some e.1) (saturatingAdd u64Max processed 1)

-- a batch of entries after the start key: the last key read, how many were read, and if it is done
def batch (source : S → OrdMap K V) (step : S → K × V → S) (start : Option K) (maxItems : Nat)
    (s : S) : S × Option K × Nat × Bool :=
  let (t, lastKey, processed, iteratorExhausted) :=
    batchLoop step maxItems (rangeAfter (source s) start) s none 0
  (t, lastKey, processed, batchDone processed maxItems iteratorExhausted)

-- batches called one after the other, each from the last key of the one before, until one is done
inductive Calls (call : Option K → Nat → S → S × Option K × Nat × Bool) :
    Option K → S → List Nat → List Nat → S → Prop
  | last {start lastKey : Option K} {s t : S} {limit processed : Nat}
      (called : call start limit s = (t, lastKey, processed, true)) :
      Calls call start s [limit] [processed] t
  | more {start lastKey : Option K} {s t u : S} {limit processed : Nat} {limits counts : List Nat}
      (called : call start limit s = (t, lastKey, processed, false))
      (rest : Calls call lastKey t limits counts u) :
      Calls call start s (limit :: limits) (processed :: counts) u

theorem batchLoop_eq (step : S → K × V → S) (n : Nat) (l : List (K × V)) (s : S)
    (lastKey : Option K) (processed : Nat) (hroom : processed + n ≤ u64Max) :
    batchLoop step n l s lastKey processed =
      ((l.take n).foldl step s, ((l.take n).getLast?.map Prod.fst).or lastKey,
        processed + (l.take n).length, decide (l.length < n)) := by
  induction n generalizing l s lastKey processed with
  | zero => simp [batchLoop]
  | succ n ih =>
      cases l with
      | nil => simp [batchLoop]
      | cons e rest =>
          have hnext : saturatingAdd u64Max processed 1 = processed + 1 :=
            Nat.min_eq_left (by omega)
          rw [batchLoop, hnext, ih _ _ _ _ (by omega), List.take_succ_cons, List.foldl_cons,
            List.length_cons, List.length_cons]
          cases hlast : (rest.take n).getLast? with
          | none =>
              have hnil := List.getLast?_eq_none_iff.mp hlast
              simp [hnil]
          | some last =>
              have hcons : (e :: rest.take n).getLast? = some last := by
                rw [List.getLast?_cons, hlast]
                rfl
              rw [hcons]
              simp only [Option.map_some, Option.some_or, Prod.mk.injEq, true_and]
              refine ⟨by omega, ?_⟩
              exact decide_eq_decide.mpr (by omega)

theorem batch_eq (source : S → OrdMap K V) (step : S → K × V → S) (start : Option K)
    {maxItems : Nat} (hmax : maxItems ≤ u32Max) (s : S) :
    batch source step start maxItems s =
      let page := (rangeAfter (source s) start).take maxItems
      (page.foldl step s, page.getLast?.map Prod.fst, page.length,
        decide ((rangeAfter (source s) start).length < maxItems)) := by
  have hsmall : u32Max ≤ u64Max := by decide
  have hdone (l : List (K × V)) : batchDone (l.take maxItems).length maxItems
      (decide (l.length < maxItems)) = decide (l.length < maxItems) := by
    rw [batchDone, ← Bool.decide_or, decide_eq_decide, List.length_take]
    omega
  rw [batch, batchLoop_eq _ _ _ _ _ _ (by omega)]
  simp only [Option.or_none, Nat.zero_add, hdone]

theorem sorted_rangeAfter (m : OrdMap K V) (start : Option K) :
    (rangeAfter m start).Pairwise (fun a b => a.1 < b.1) := by
  cases start with
  | none => exact m.sorted
  | some key => exact m.sorted.filter _

-- what is left after a page is what followed it
theorem rangeAfter_last {m : OrdMap K V} {start : Option K} {n : Nat} {e : K × V}
    (hlast : ((rangeAfter m start).take n).getLast? = some e) :
    rangeAfter m (some e.1) = (rangeAfter m start).drop n := by
  obtain ⟨front, hfront⟩ := List.getLast?_eq_some_iff.mp hlast
  have hsplit : rangeAfter m start = front ++ (e :: (rangeAfter m start).drop n) := by
    conv_lhs => rw [← List.take_append_drop n (rangeAfter m start), hfront]
    simp
  have hmem : e ∈ rangeAfter m start := by rw [hsplit]; simp
  have hsame : rangeAfter m (some e.1) =
      (rangeAfter m start).filter (fun x => decide (e.1 < x.1)) := by
    cases start with
    | none => rfl
    | some key =>
        have hkey : key < e.1 := of_decide_eq_true (List.mem_filter.mp hmem).2
        rw [rangeAfter, rangeAfter, List.filter_filter]
        refine List.filter_congr (fun x _ => ?_)
        by_cases hx : e.1 < x.1
        · simp [hx, hkey.trans hx]
        · simp [hx]
  have hsorted := sorted_rangeAfter m start
  rw [hsplit, List.pairwise_append, List.pairwise_cons] at hsorted
  obtain ⟨-, ⟨hafter, -⟩, hbefore⟩ := hsorted
  rw [hsame]
  conv_lhs => rw [hsplit]
  rw [List.filter_append, List.filter_cons_of_neg (by simp)]
  have hnone : front.filter (fun x => decide (e.1 < x.1)) = [] :=
    List.filter_eq_nil_iff.mpr (fun x hx =>
      fun h => absurd (of_decide_eq_true h) (lt_asymm (hbefore x hx e (List.mem_cons_self ..))))
  have hall : ((rangeAfter m start).drop n).filter (fun x => decide (e.1 < x.1)) =
      (rangeAfter m start).drop n :=
    List.filter_eq_self.mpr (fun x hx => decide_eq_true (hafter x hx))
  rw [hnone, hall, List.nil_append]

section Walk

variable {source : S → OrdMap K V} {step : S → K × V → S}
  (hframe : ∀ s e, source (step s e) = source s)

include hframe

theorem source_foldl (l : List (K × V)) (s : S) : source (l.foldl step s) = source s := by
  induction l generalizing s with
  | nil => rfl
  | cons e l ih => rw [List.foldl_cons, ih, hframe]

theorem batch_more {start lastKey : Option K} {maxItems processed : Nat} {s t : S}
    (hmax : maxItems ≤ u32Max) (hmin : 1 ≤ maxItems)
    (called : batch source step start maxItems s = (t, lastKey, processed, false)) :
    source t = source s ∧ t = ((rangeAfter (source s) start).take maxItems).foldl step s ∧
      processed = maxItems ∧ maxItems ≤ (rangeAfter (source s) start).length ∧
      rangeAfter (source t) lastKey = (rangeAfter (source s) start).drop maxItems := by
  rw [batch_eq source step start hmax] at called
  simp only [Prod.mk.injEq, decide_eq_false_iff_not, not_lt] at called
  obtain ⟨rfl, rfl, rfl, hfull⟩ := called
  have hsource := source_foldl hframe ((rangeAfter (source s) start).take maxItems) s
  refine ⟨hsource, rfl, ?_, hfull, ?_⟩
  · rw [List.length_take, Nat.min_eq_left hfull]
  · cases hlast : ((rangeAfter (source s) start).take maxItems).getLast? with
    | none =>
        have hnil := congrArg List.length (List.getLast?_eq_none_iff.mp hlast)
        rw [List.length_take, List.length_nil] at hnil
        omega
    | some e =>
        rw [hsource]
        exact rangeAfter_last hlast

theorem batch_last {start lastKey : Option K} {maxItems processed : Nat} {s t : S}
    (hmax : maxItems ≤ u32Max)
    (called : batch source step start maxItems s = (t, lastKey, processed, true)) :
    t = (rangeAfter (source s) start).foldl step s ∧
      processed = (rangeAfter (source s) start).length := by
  rw [batch_eq source step start hmax] at called
  simp only [Prod.mk.injEq, decide_eq_true_eq] at called
  obtain ⟨rfl, -, rfl, hshort⟩ := called
  rw [List.take_of_length_le (Nat.le_of_lt hshort)]
  exact ⟨rfl, rfl⟩

theorem Calls.complete {start : Option K} {s t : S} {limits counts : List Nat}
    (hlimits : ∀ limit ∈ limits, 1 ≤ limit ∧ limit ≤ u32Max)
    (calls : Calls (batch source step) start s limits counts t) :
    t = (rangeAfter (source s) start).foldl step s ∧
      counts.sum = (rangeAfter (source s) start).length := by
  induction calls with
  | last called =>
      obtain ⟨hstate, hcount⟩ := batch_last hframe (hlimits _ (List.mem_cons_self ..)).2 called
      exact ⟨hstate, by rw [List.sum_singleton, hcount]⟩
  | more called _ ih =>
      obtain ⟨hmin, hmax⟩ := hlimits _ (List.mem_cons_self ..)
      obtain ⟨-, hstate, hcount, hfull, hleft⟩ := batch_more hframe hmax hmin called
      obtain ⟨hrest, hsum⟩ := ih (fun limit h => hlimits limit (List.mem_cons_of_mem _ h))
      rw [hleft] at hrest hsum
      refine ⟨?_, ?_⟩
      · rw [hrest, hstate, ← List.foldl_append, List.take_append_drop]
      · rw [List.sum_cons, hsum, hcount, List.length_drop]
        omega

theorem Calls.ends {limits : Nat → Nat} (hlimits : ∀ i, 1 ≤ limits i ∧ limits i ≤ u32Max)
    (start : Option K) (s : S) (i : Nat) :
    ∃ n counts t, n ≤ (rangeAfter (source s) start).length + 1 ∧
      Calls (batch source step) start s ((List.range' i n).map limits) counts t := by
  induction hwork : (rangeAfter (source s) start).length using Nat.strong_induction_on
    generalizing start s i with
  | _ w ih =>
      obtain ⟨hmin, hmax⟩ := hlimits i
      match hcalled : batch source step start (limits i) s with
      | (t, lastKey, processed, true) =>
          exact ⟨1, [processed], t, Nat.le_add_left 1 w, .last hcalled⟩
      | (t, lastKey, processed, false) =>
          obtain ⟨-, -, -, hfull, hleft⟩ := batch_more hframe hmax hmin hcalled
          have hlength : (rangeAfter (source t) lastKey).length < w := by
            rw [hleft, List.length_drop]
            omega
          obtain ⟨n, counts, u, hn, calls⟩ := ih _ hlength lastKey t (i + 1) rfl
          exact ⟨n + 1, processed :: counts, u, by omega, .more hcalled calls⟩

end Walk

end BatchWalk
