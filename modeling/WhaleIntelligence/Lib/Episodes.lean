import Mathlib.Data.List.Induction

/- What holds since something has happened.

   A state of affairs begins with one event, which may depend on those before it, and
   lasts until another ends it (`Since`). One more event ends it, begins it, or leaves
   it as it is (`since_concat`), so a table that is kept event by event can be compared
   with what has been since when. -/
namespace Episodes

section
variable {ε : Type}

/-- Some event has begun it, and none after that has ended it. -/
def Since (start : List ε → ε → Prop) (stop : ε → Prop) (es : List ε) : Prop :=
  ∃ before e after, es = before ++ e :: after ∧ start before e ∧ ∀ f ∈ after, ¬ stop f

variable {start : List ε → ε → Prop} {stop : ε → Prop} {es : List ε} {e : ε}

theorem not_since_nil : ¬ Since start stop [] := by
  rintro ⟨before, e, after, h, -⟩
  exact absurd h.symm (List.append_ne_nil_of_right_ne_nil _ (List.cons_ne_nil _ _))

/-- The last event begins it, or it has been going on and the last event does not end it. -/
theorem since_concat : Since start stop (es ++ [e]) ↔ start es e ∨ (Since start stop es ∧ ¬ stop e) := by
  constructor
  · rintro ⟨before, b, after, hsplit, hstart, hafter⟩
    rcases List.eq_nil_or_concat after with rfl | ⟨rest, last, rfl⟩
    · obtain ⟨rfl, hlast⟩ := List.append_inj' hsplit rfl
      obtain rfl : e = b := (List.cons.inj hlast).1
      exact Or.inl hstart
    · rw [List.concat_eq_append, ← List.cons_append, ← List.append_assoc] at hsplit
      obtain ⟨rfl, hlast⟩ := List.append_inj' hsplit rfl
      obtain rfl : e = last := (List.cons.inj hlast).1
      refine Or.inr ⟨⟨before, b, rest, rfl, hstart, fun f hf => hafter f ?_⟩, hafter e (by simp)⟩
      simp [hf]
  · rintro (hstart | ⟨⟨before, b, after, rfl, hstart, hafter⟩, hstop⟩)
    · exact ⟨es, e, [], rfl, hstart, by simp⟩
    · refine ⟨before, b, after ++ [e], by simp, hstart, fun f hf => ?_⟩
      rcases List.mem_append.mp hf with hf | hf
      · exact hafter f hf
      · rw [List.mem_singleton.mp hf]
        exact hstop

end

end Episodes
