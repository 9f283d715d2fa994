import Mathlib.Data.List.Forall2
import Mathlib.Data.List.Basic

/- Tables that only grow.

   A row is never taken away: it keeps its place, and what may become of it is a
   relation; a new row comes after all others (`Grows`). With a relation that can be
   repeated, a run of such steps is one (`grows_foldl`). What the relation leaves as it
   is and no new row says is then the same before and after it (`filter_grows`). -/
namespace Growing

section
variable {ρ ε σ : Type} {keep : ρ → ρ → Prop} {fresh : ρ → Prop} {l m n : List ρ} {r : ρ} {i : Nat}

/-- Every row is kept in its place, and those after them are fresh. -/
def Grows (keep : ρ → ρ → Prop) (fresh : ρ → Prop) (l m : List ρ) : Prop :=
  ∃ old added, m = old ++ added ∧ List.Forall₂ keep l old ∧ ∀ r ∈ added, fresh r

theorem grows_append (hrefl : ∀ r, keep r r) {added : List ρ} (h : ∀ r ∈ added, fresh r) :
    Grows keep fresh l (l ++ added) :=
  ⟨l, added, rfl, List.forall₂_same.mpr fun r _ => hrefl r, h⟩

theorem grows_refl (hrefl : ∀ r, keep r r) : Grows keep fresh l l := by
  have h : Grows keep fresh l (l ++ []) := grows_append hrefl (by simp)
  rw [List.append_nil] at h
  exact h

theorem grows_mapIdx {f : Nat → ρ → ρ} (h : ∀ i r, keep r (f i r)) : Grows keep fresh l (l.mapIdx f) := by
  refine ⟨l.mapIdx f, [], by simp, ?_, by simp⟩
  rw [List.forall₂_iff_get]
  refine ⟨by simp, fun i hi hi' => ?_⟩
  simpa using h i l[i]

theorem grows_map {f : ρ → ρ} (h : ∀ r, keep r (f r)) : Grows keep fresh l (l.map f) := by
  refine ⟨l.map f, [], by simp, ?_, by simp⟩
  rw [List.forall₂_map_right_iff, List.forall₂_same]
  exact fun r _ => h r

theorem grows_mono {keep' : ρ → ρ → Prop} {fresh' : ρ → Prop} (h : Grows keep fresh l m)
    (hkeep : ∀ r r', keep r r' → keep' r r') (hfresh : ∀ r, fresh r → fresh' r) : Grows keep' fresh' l m := by
  obtain ⟨old, added, hm, hold, hadded⟩ := h
  exact ⟨old, added, hm, hold.imp hkeep, fun r hr => hfresh r (hadded r hr)⟩

theorem grows_trans (htrans : ∀ r r' r'', keep r r' → keep r' r'' → keep r r'')
    (hstable : ∀ r r', fresh r → keep r r' → fresh r') (h : Grows keep fresh l m) (h' : Grows keep fresh m n) :
    Grows keep fresh l n := by
  obtain ⟨old, added, rfl, hold, hadded⟩ := h
  obtain ⟨both, last, rfl, hboth, hlast⟩ := h'
  have hfirst : List.Forall₂ keep old (both.take old.length) := by simpa using List.forall₂_take old.length hboth
  have hsecond : List.Forall₂ keep added (both.drop old.length) := by simpa using List.forall₂_drop old.length hboth
  refine ⟨both.take old.length, both.drop old.length ++ last, ?_, ?_, ?_⟩
  · rw [← List.append_assoc, List.take_append_drop]
  · rw [List.forall₂_iff_get] at hold hfirst ⊢
    refine ⟨hold.1.trans hfirst.1, fun i hi hi' => ?_⟩
    exact htrans _ _ _ (hold.2 i hi (hold.1 ▸ hi)) (hfirst.2 i (hold.1 ▸ hi) hi')
  · intro r hr
    rcases List.mem_append.mp hr with hr | hr
    · obtain ⟨i, hi, rfl⟩ := List.getElem_of_mem hr
      rw [List.forall₂_iff_get] at hsecond
      exact hstable _ _ (hadded _ (List.getElem_mem (hsecond.1 ▸ hi))) (hsecond.2 i (hsecond.1 ▸ hi) hi)
    · exact hlast r hr

/-- A run of steps that each let the table grow lets it grow. -/
theorem grows_foldl (hrefl : ∀ r, keep r r) (htrans : ∀ r r' r'', keep r r' → keep r' r'' → keep r r'')
    (hstable : ∀ r r', fresh r → keep r r' → fresh r') {rows : σ → List ρ} {step : σ → ε → σ} {es : List ε}
    (hstep : ∀ e ∈ es, ∀ s, Grows keep fresh (rows s) (rows (step s e))) (s : σ) :
    Grows keep fresh (rows s) (rows (es.foldl step s)) := by
  induction es generalizing s with
  | nil => exact grows_refl hrefl
  | cons e es ih =>
    exact grows_trans htrans hstable (hstep e List.mem_cons_self s)
      (ih (fun f hf => hstep f (List.mem_cons_of_mem _ hf)) (step s e))

theorem getElem?_grows (h : Grows keep fresh l m) (hr : l[i]? = some r) : ∃ r', m[i]? = some r' ∧ keep r r' := by
  obtain ⟨old, added, rfl, hold, -⟩ := h
  rw [List.forall₂_iff_get] at hold
  obtain ⟨hi, rfl⟩ := List.getElem?_eq_some_iff.mp hr
  have hi' : i < old.length := hold.1 ▸ hi
  refine ⟨old[i], ?_, hold.2 i hi hi'⟩
  rw [List.getElem?_append_left hi', List.getElem?_eq_getElem]

theorem mem_grows (h : Grows keep fresh l m) (hr : r ∈ l) : ∃ r' ∈ m, keep r r' := by
  obtain ⟨i, hi⟩ := List.getElem?_of_mem hr
  obtain ⟨r', hr', hkeep⟩ := getElem?_grows h hi
  exact ⟨r', List.mem_of_getElem? hr', hkeep⟩

theorem mem_of_grows (h : Grows keep fresh l m) (hr : r ∈ m) : (∃ r₀ ∈ l, keep r₀ r) ∨ fresh r := by
  obtain ⟨old, added, rfl, hold, hadded⟩ := h
  rcases List.mem_append.mp hr with hr | hr
  · rw [List.forall₂_iff_get] at hold
    obtain ⟨i, hi, rfl⟩ := List.getElem_of_mem hr
    have hi' : i < l.length := hold.1 ▸ hi
    exact Or.inl ⟨l[i], List.getElem_mem _, hold.2 i hi' hi⟩
  · exact Or.inr (hadded r hr)

/-- Rows that are left as they are, and that no new one is among, are the same. -/
theorem filter_grows {p : ρ → Bool} (hkeep : ∀ r r', keep r r' → p r' = p r ∧ (p r = true → r' = r))
    (hfresh : ∀ r, fresh r → p r = false) (h : Grows keep fresh l m) : m.filter p = l.filter p := by
  obtain ⟨old, added, rfl, hold, hadded⟩ := h
  have hnone : added.filter p = [] := by
    apply List.filter_eq_nil_iff.mpr
    intro r hr
    simp [hfresh r (hadded r hr)]
  rw [List.filter_append, hnone, List.append_nil]
  induction hold with
  | nil => rfl
  | @cons r r' l old hr hold ih =>
    obtain ⟨hp, heq⟩ := hkeep r r' hr
    cases hpr : p r with
    | true =>
      rw [List.filter_cons_of_pos (hp.trans hpr), List.filter_cons_of_pos hpr, ih, heq hpr]
    | false =>
      rw [List.filter_cons_of_neg (by simp [hp, hpr]), List.filter_cons_of_neg (by simp [hpr]), ih]

end

end Growing
