import Mathlib.Data.List.Basic

namespace LastWrite

variable {S E : Type} (clears stores : E → Prop)

def Restored : List E → Prop
  | [] => True
  | e :: after => (clears e → ∃ later ∈ after, stores later) ∧ Restored after

theorem restored_of_never {es : List E} (h : ∀ e ∈ es, ¬ clears e) : Restored clears stores es := by
  induction es with
  | nil => trivial
  | cons e es ih =>
      exact ⟨fun hclears => absurd hclears (h e (List.mem_cons_self ..)),
        ih (fun e' he' => h e' (List.mem_cons_of_mem _ he'))⟩

variable {clears stores}

section Fold

variable {holds : S → Prop} {step : S → E → S}
  (hclears : ∀ s e, clears e → ¬ holds (step s e)) (hstores : ∀ s e, stores e → holds (step s e))
  (hframe : ∀ s e, ¬ clears e → ¬ stores e → (holds (step s e) ↔ holds s))

include hclears hstores hframe

-- what a run of writes leaves is decided by its last write that clears or stores
theorem holds_foldl (es : List E) (s : S) :
    holds (es.foldl step s) ↔
      Restored clears stores es ∧ (holds s ∨ ∃ e ∈ es, stores e) := by
  induction es generalizing s with
  | nil => simp [Restored]
  | cons e es ih =>
      rw [List.foldl_cons, ih, Restored, List.exists_mem_cons_iff]
      by_cases hc : clears e
      · have hgone := hclears s e hc
        have hnot : ¬ stores e := fun hs => hgone (hstores s e hs)
        constructor
        · rintro ⟨hrest, hheld | hlater⟩
          · exact absurd hheld hgone
          · exact ⟨⟨fun _ => hlater, hrest⟩, .inr (.inr hlater)⟩
        · rintro ⟨⟨hlater, hrest⟩, -⟩
          exact ⟨hrest, .inr (hlater hc)⟩
      · have hhead : (clears e → ∃ later ∈ es, stores later) := fun h => absurd h hc
        by_cases hs : stores e
        · constructor
          · rintro ⟨hrest, -⟩
            exact ⟨⟨hhead, hrest⟩, .inr (.inl hs)⟩
          · rintro ⟨⟨-, hrest⟩, -⟩
            exact ⟨hrest, .inl (hstores s e hs)⟩
        · rw [hframe s e hc hs]
          constructor
          · rintro ⟨hrest, hheld⟩
            exact ⟨⟨hhead, hrest⟩, hheld.imp_right .inr⟩
          · rintro ⟨⟨-, hrest⟩, hheld⟩
            exact ⟨hrest, hheld.imp_right (Or.resolve_left · hs)⟩

end Fold

end LastWrite
