import Mathlib.Data.List.Basic

/- Tables whose rows have owners, and queries that look at the rows of one owner.

   Two states are the same to an owner when each table holds the same rows of its own
   (`own`). A query that finds nothing but rows of the owner finds the same in both
   (`filter_congr`, `any_congr`), whatever the rows of others are. An observation is
   noninterfering when it does not tell such states apart. -/
namespace Tenancy

/-! ## Rows of an owner -/

section
variable {ρ κ : Type} [DecidableEq κ]

def own (owner : ρ → κ) (w : κ) (rows : List ρ) : List ρ := rows.filter fun r => owner r = w

variable {owner : ρ → κ} {w : κ} {rows rows' : List ρ} {p p' : ρ → Bool}

/-- What a query finds of the owner's rows is what it finds. -/
theorem filter_own (hp : ∀ r ∈ rows, p r = true → owner r = w) : (own owner w rows).filter p = rows.filter p := by
  rw [own, List.filter_filter]
  refine List.filter_congr fun r hr => ?_
  cases hpr : p r with
  | false => rfl
  | true => rw [decide_eq_true (hp r hr hpr)]; rfl

theorem filter_congr (h : own owner w rows = own owner w rows') (hp : ∀ r ∈ rows, p r = true → owner r = w)
    (hp' : ∀ r ∈ rows', p' r = true → owner r = w) (heq : ∀ r ∈ rows, r ∈ rows' → owner r = w → p r = p' r) :
    rows.filter p = rows'.filter p' := by
  have hsame : (own owner w rows').filter p = (own owner w rows').filter p' := by
    refine List.filter_congr fun r hr => ?_
    obtain ⟨hmem', howner⟩ := List.mem_filter.mp hr
    have hmem : r ∈ rows := List.mem_of_mem_filter (h ▸ hr)
    exact heq r hmem hmem' (of_decide_eq_true howner)
  rw [← filter_own hp, h, hsame, filter_own hp']

/-- So a query for one row finds it in both or in neither. -/
theorem any_congr (h : own owner w rows = own owner w rows') (hp : ∀ r ∈ rows, p r = true → owner r = w)
    (hp' : ∀ r ∈ rows', p' r = true → owner r = w) (heq : ∀ r ∈ rows, r ∈ rows' → owner r = w → p r = p' r) :
    rows.any p = rows'.any p' := by
  have hany : ∀ (l : List ρ) (q : ρ → Bool), l.any q = !(l.filter q).isEmpty := by
    intro l q
    rw [Bool.eq_iff_iff]
    simp
  rw [hany, hany, filter_congr h hp hp' heq]

/-- A query that asks for the owner first. -/
theorem filter_asking (h : own owner w rows = own owner w rows')
    (heq : ∀ r ∈ rows, r ∈ rows' → owner r = w → p r = p' r) :
    rows.filter (fun r => owner r == w && p r) = rows'.filter (fun r => owner r == w && p' r) := by
  have hasks : ∀ (q : ρ → Bool) r, (owner r == w && q r) = true → owner r = w := by
    intro q r hr
    rw [Bool.and_eq_true, beq_iff_eq] at hr
    exact hr.1
  refine filter_congr h (fun r _ => hasks p r) (fun r _ => hasks p' r) fun r hr hr' howner => ?_
  rw [heq r hr hr' howner]

theorem own_of_all (h : ∀ r ∈ rows, owner r = w) : own owner w rows = rows :=
  List.filter_eq_self.mpr fun r hr => decide_eq_true (h r hr)

theorem eq_of_all (h : own owner w rows = own owner w rows') (hall : ∀ r ∈ rows, owner r = w)
    (hall' : ∀ r ∈ rows', owner r = w) : rows = rows' := by
  rw [← own_of_all hall, h, own_of_all hall']

end

/-! ## Observations -/

section
variable {σ ω : Type}

/-- States that are the same to the observer are observed alike. -/
def Noninterfering (same : σ → σ → Prop) (observe : σ → ω) : Prop := ∀ s s', same s s' → observe s = observe s'

variable {same : σ → σ → Prop} {observe : σ → ω} {s s' : σ}

theorem not_noninterfering (hs : same s s') (hne : observe s ≠ observe s') : ¬ Noninterfering same observe :=
  fun h => hne (h s s' hs)

end

end Tenancy
