import Mathlib.Data.List.Sort

/- A list read as a set: sort it, then drop repeats of the element just written
   (`sort(); dedup()`). Over a total order the result depends on the elements
   alone, so two lists have the same canonical form exactly when they have the
   same members (`canon_eq_iff`). -/
namespace Canon

/-- Drop every element equal to the one before it. -/
def dedupRuns {α : Type} [DecidableEq α] : List α → List α
  | [] => []
  | [a] => [a]
  | a :: b :: l => if a = b then dedupRuns (b :: l) else a :: dedupRuns (b :: l)

section
variable {α : Type} [DecidableEq α]

theorem mem_dedupRuns (a : α) : ∀ l : List α, a ∈ dedupRuns l ↔ a ∈ l
  | [] => by simp [dedupRuns]
  | [b] => by simp [dedupRuns]
  | b :: c :: l => by
    have ih := mem_dedupRuns a (c :: l)
    by_cases h : b = c
    · subst h
      simp only [dedupRuns, if_true, ih, List.mem_cons]
      constructor
      · exact Or.inr
      · intro h
        rcases h with h | h
        · exact Or.inl h
        · exact h
    · simp only [dedupRuns, h, if_false]
      rw [List.mem_cons, ih, List.mem_cons (b := b)]

theorem dedupRuns_pairwise {r : α → α → Prop} [IsTrans α r] [Std.Antisymm r] :
    ∀ l : List α, l.Pairwise r → (dedupRuns l).Pairwise (fun a b => r a b ∧ a ≠ b)
  | [], _ => by simp [dedupRuns]
  | [b], _ => by simp [dedupRuns]
  | b :: c :: l, h => by
    have hb : ∀ x ∈ c :: l, r b x := (List.pairwise_cons.mp h).1
    have hc : (c :: l).Pairwise r := (List.pairwise_cons.mp h).2
    have ih := dedupRuns_pairwise (c :: l) hc
    by_cases hbc : b = c
    · simp only [dedupRuns, hbc, if_true]
      exact ih
    · simp only [dedupRuns, hbc, if_false, List.pairwise_cons]
      refine ⟨?_, ih⟩
      intro x hx
      have hxl : x ∈ c :: l := (mem_dedupRuns x _).mp hx
      refine ⟨hb x hxl, ?_⟩
      -- `b` below `c` below `x`: were `x` equal to `b`, all three would coincide.
      intro hbx
      subst hbx
      rcases List.mem_cons.mp hxl with hxc | hxl
      · exact hbc hxc
      · exact hbc (antisymm (r := r) (hb c List.mem_cons_self) ((List.pairwise_cons.mp hc).1 _ hxl))

end

section
variable {α : Type} [DecidableEq α] (r : α → α → Prop) [DecidableRel r]
  [Std.Total r] [IsTrans α r] [Std.Antisymm r]

/-- The canonical list of the elements of `l`. -/
def canon (l : List α) : List α := dedupRuns (l.insertionSort r)

omit [Std.Total r] [IsTrans α r] [Std.Antisymm r] in
theorem mem_canon {l : List α} {a : α} : a ∈ canon r l ↔ a ∈ l := by
  rw [canon, mem_dedupRuns, List.mem_insertionSort]

theorem canon_pairwise (l : List α) : (canon r l).Pairwise (fun a b => r a b ∧ a ≠ b) :=
  dedupRuns_pairwise _ (List.pairwise_insertionSort r l)

/-- The canonical form is the set: order and multiplicity are forgotten, nothing else. -/
theorem canon_eq_iff {l l' : List α} : canon r l = canon r l' ↔ ∀ a, a ∈ l ↔ a ∈ l' := by
  constructor
  · intro h a
    rw [← mem_canon r, h, mem_canon]
  · intro h
    have : Std.Antisymm (fun a b : α => r a b ∧ a ≠ b) :=
      ⟨fun a b hab hba => antisymm (r := r) hab.1 hba.1⟩
    have : Std.Irrefl (fun a b : α => r a b ∧ a ≠ b) := ⟨fun _ ha => ha.2 rfl⟩
    exact (canon_pairwise r l).eq_of_mem_iff (canon_pairwise r l') fun a => by
      rw [mem_canon, mem_canon, h a]

end

end Canon
