import Mathlib.Logic.Basic

/- Tables with one row under each key, and the guarded statements on them.

   An update changes the row of its key when the guard holds of it, and an upsert
   inserts the row where there is none. Either leaves every other key alone, and at
   its own key it does nothing or what it says (`updateWhere_cases`,
   `upsert_cases`). -/
namespace KeyedTable

abbrev Table (κ ρ : Type) := κ → Option ρ

section
variable {κ ρ : Type}

/-- The update finds its row. -/
def Table.affects (t : Table κ ρ) (k : κ) (guard : ρ → Bool) : Bool := (t k).any guard

/-- The row that an upsert writes, `none` when the guard keeps it from writing. -/
def Table.upserted (t : Table κ ρ) (k : κ) (new : ρ) (guard : ρ → Bool) (change : ρ → ρ) : Option ρ :=
  match t k with
  | none => some new
  | some r => if guard r then some (change r) else none

theorem affects_iff {t : Table κ ρ} {k : κ} {guard : ρ → Bool} :
    t.affects k guard = true ↔ ∃ r, t k = some r ∧ guard r = true := by
  rw [Table.affects, Option.any_eq_true]

variable [DecidableEq κ]

def Table.set (t : Table κ ρ) (k : κ) (r : Option ρ) : Table κ ρ := fun j => if j = k then r else t j

/-- `UPDATE … WHERE key = k AND guard`. -/
def Table.updateWhere (t : Table κ ρ) (k : κ) (guard : ρ → Bool) (change : ρ → ρ) : Table κ ρ :=
  t.set k ((t k).map fun r => if guard r then change r else r)

/-- `INSERT … ON CONFLICT (key) DO UPDATE … WHERE guard`. -/
def Table.upsert (t : Table κ ρ) (k : κ) (new : ρ) (guard : ρ → Bool) (change : ρ → ρ) : Table κ ρ :=
  t.set k (some (match t k with
    | none => new
    | some r => if guard r then change r else r))

/-- `DELETE … WHERE key = k AND guard`. -/
def Table.deleteWhere (t : Table κ ρ) (k : κ) (guard : ρ → Bool) : Table κ ρ :=
  t.set k ((t k).filter fun r => !guard r)

variable {t : Table κ ρ} {k j : κ} {new r : ρ} {guard : ρ → Bool} {change : ρ → ρ}

theorem set_self (t : Table κ ρ) (k : κ) (r : Option ρ) : t.set k r k = r := if_pos rfl

theorem set_ne (t : Table κ ρ) (h : j ≠ k) (r : Option ρ) : t.set k r j = t j := if_neg h

theorem set_set (t : Table κ ρ) (k : κ) (r r' : Option ρ) : (t.set k r).set k r' = t.set k r' := by
  funext j
  by_cases hj : j = k
  · rw [hj, set_self, set_self]
  · rw [set_ne _ hj, set_ne _ hj, set_ne _ hj]

theorem set_unchanged {r : Option ρ} (h : t k = r) : t.set k r = t := by
  funext j
  by_cases hj : j = k
  · rw [hj, set_self, h]
  · exact set_ne t hj r

/-- An update leaves a row or changes the one of its key. -/
theorem updateWhere_cases (t : Table κ ρ) (k : κ) (guard : ρ → Bool) (change : ρ → ρ) (j : κ) :
    (t.updateWhere k guard change j = t j ∧ (j = k → t.affects k guard = false)) ∨
      ∃ r, j = k ∧ t k = some r ∧ guard r = true ∧ t.updateWhere k guard change j = some (change r) := by
  by_cases hj : j = k
  · subst hj
    rw [Table.updateWhere, set_self, Table.affects]
    cases hr : t j with
    | none => exact Or.inl ⟨rfl, fun _ => rfl⟩
    | some r =>
      by_cases hg : guard r = true
      · exact Or.inr ⟨r, rfl, rfl, hg, by rw [Option.map_some, if_pos hg]⟩
      · exact Or.inl ⟨by rw [Option.map_some, if_neg hg], fun _ => by simpa using hg⟩
  · exact Or.inl ⟨set_ne t hj _, fun h => absurd h hj⟩

/-- A deletion leaves a row or removes the one of its key. -/
theorem deleteWhere_cases (t : Table κ ρ) (k : κ) (guard : ρ → Bool) (j : κ) :
    (t.deleteWhere k guard j = t j ∧ (j = k → t.affects k guard = false)) ∨
      (j = k ∧ t.affects k guard = true ∧ t.deleteWhere k guard j = none) := by
  by_cases hj : j = k
  · subst hj
    rw [Table.deleteWhere, set_self, Table.affects]
    cases hr : t j with
    | none => exact Or.inl ⟨rfl, fun _ => rfl⟩
    | some r =>
      cases hg : guard r with
      | true => exact Or.inr ⟨rfl, hg, by simp [hg]⟩
      | false => exact Or.inl ⟨by simp [hg], fun _ => hg⟩
  · exact Or.inl ⟨set_ne t hj _, fun h => absurd h hj⟩

/-- An upsert leaves a row, inserts the one of its key, or changes it. -/
theorem upsert_cases (t : Table κ ρ) (k : κ) (new : ρ) (guard : ρ → Bool) (change : ρ → ρ) (j : κ) :
    (t.upsert k new guard change j = t j ∧ (j = k → t.upserted k new guard change = none)) ∨
      (j = k ∧ t k = none ∧ t.upserted k new guard change = some new ∧
        t.upsert k new guard change j = some new) ∨
      ∃ r, j = k ∧ t k = some r ∧ guard r = true ∧ t.upserted k new guard change = some (change r) ∧
        t.upsert k new guard change j = some (change r) := by
  by_cases hj : j = k
  · subst hj
    rw [Table.upsert, set_self, Table.upserted]
    cases hr : t j with
    | none => exact Or.inr (Or.inl ⟨rfl, rfl, rfl, rfl⟩)
    | some r =>
      by_cases hg : guard r = true
      · exact Or.inr (Or.inr ⟨r, rfl, rfl, hg, if_pos hg, by simp only [if_pos hg]⟩)
      · exact Or.inl ⟨by simp only [if_neg hg], fun _ => if_neg hg⟩
  · exact Or.inl ⟨set_ne t hj _, fun h => absurd h hj⟩

end

end KeyedTable
