import WhaleIntelligence.Helius.Sync
import WhaleIntelligence.Lib.FirstWins

/- Runs of inserts that do nothing where their key is taken.

   Such a run adds to the table what is fresh of its rows (`foldl_insertNew`), so of the
   rows under one key the first stays. -/
namespace WhaleIntelligence.Helius
open FirstWins

section
variable {ρ κ : Type} [DecidableEq κ] (key : ρ → κ)

theorem insertNew_of_mem {rows : List ρ} {row : ρ} (h : key row ∈ rows.map key) : insertNew key rows row = rows := by
  rw [insertNew, if_pos (by simpa using h)]

theorem insertNew_of_notMem {rows : List ρ} {row : ρ} (h : key row ∉ rows.map key) :
    insertNew key rows row = rows ++ [row] := by
  rw [insertNew, if_neg (by simpa using h)]

/-- A run adds what is fresh of it. -/
theorem foldl_insertNew (l : List ρ) (rows : List ρ) :
    l.foldl (insertNew key) rows = rows ++ fresh key (rows.map key) l := by
  induction l generalizing rows with
  | nil => rw [List.foldl_nil, fresh, List.append_nil]
  | cons row l ih =>
    rw [List.foldl_cons, ih, fresh]
    by_cases h : key row ∈ rows.map key
    · rw [insertNew_of_mem key h, if_pos h]
    · have hsame : ∀ r ∈ l, key r ∈ (rows ++ [row]).map key ↔ key r ∈ key row :: rows.map key := fun r _ => by
        simp [or_comm]
      rw [insertNew_of_notMem key h, if_neg h, fresh_congr key hsame, List.append_assoc, List.singleton_append]

/-- A run adds nothing where all its keys are taken. -/
theorem foldl_insertNew_eq_self_iff (l : List ρ) (rows : List ρ) :
    l.foldl (insertNew key) rows = rows ↔ ∀ row ∈ l, key row ∈ rows.map key := by
  rw [foldl_insertNew, List.append_right_eq_self, fresh_eq_nil_iff]

/-- What a run inserts has its key in the table. -/
theorem mem_foldl_insertNew {l rows : List ρ} {row : ρ} (h : row ∈ l) :
    key row ∈ (l.foldl (insertNew key) rows).map key := by
  obtain ⟨pre, post, rfl⟩ := List.append_of_mem h
  rw [List.foldl_append, List.foldl_cons, foldl_insertNew, List.map_append]
  -- what is inserted later only adds to the table
  apply List.mem_append_left
  by_cases hseen : key row ∈ (pre.foldl (insertNew key) rows).map key
  · rwa [insertNew_of_mem key hseen]
  · rw [insertNew_of_notMem key hseen]
    simp

/-- An empty table keeps the first row under each key. -/
theorem foldl_insertNew_nil (l : List ρ) : l.foldl (insertNew key) [] = firstWins key l := by
  rw [foldl_insertNew, firstWins_eq_fresh, List.nil_append, List.map_nil]

/-- A table that has none of the keys keeps the first row under each. -/
theorem foldl_insertNew_apart {rows l : List ρ} (h : ∀ row ∈ l, key row ∉ rows.map key) :
    l.foldl (insertNew key) rows = rows ++ firstWins key l := by
  rw [foldl_insertNew, firstWins_eq_fresh, fresh_congr key fun row hrow => ?_]
  simpa using h row hrow

end

end WhaleIntelligence.Helius
