import Mathlib.Data.List.Basic

namespace PrefixCode

variable {α σ : Type}

def Framed (ok : α → Prop) (enc : α → List σ) : Prop :=
  ∀ ⦃a b⦄, ok a → ok b → ∀ ⦃r s⦄, enc a ++ r = enc b ++ s → a = b ∧ r = s

theorem framed_of_read {ok : α → Prop} {enc : α → List σ} (read : List σ → Option (α × List σ))
    (h : ∀ a, ok a → ∀ rest, read (enc a ++ rest) = some (a, rest)) : Framed ok enc := by
  intro a b ha hb r s heq
  have hread := h a ha r
  rw [heq, h b hb s] at hread
  obtain ⟨rfl, rfl⟩ := Prod.mk.inj (Option.some.inj hread)
  exact ⟨rfl, rfl⟩

theorem Framed.eq_of_prefix {ok : α → Prop} {enc : α → List σ} (h : Framed ok enc) {a b : α}
    (ha : ok a) (hb : ok b) (hpre : enc a <+: enc b) : a = b := by
  obtain ⟨rest, hrest⟩ := hpre
  have heq : enc a ++ rest = enc b ++ [] := by rw [hrest, List.append_nil]
  exact (h ha hb heq).1

theorem Framed.injective {ok : α → Prop} {enc : α → List σ} (h : Framed ok enc) {a b : α}
    (ha : ok a) (hb : ok b) (heq : enc a = enc b) : a = b :=
  h.eq_of_prefix ha hb (heq ▸ List.prefix_refl _)

end PrefixCode
