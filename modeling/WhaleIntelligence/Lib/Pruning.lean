import Mathlib.Data.List.Nodup
import Mathlib.Data.List.Sort
import Mathlib.Data.List.Perm.Subperm

/- Pruning a table in batches, the oldest rows first.

   A batch removes the oldest of the expired rows, as many as the limit lets it
   (`prune`). It removes expired rows only (`expired_of_gone`). Of the rows from before
   some time that have all expired it takes its limit off, whatever has expired since
   (`count_prune`): newer rows have to wait for them. -/
namespace Pruning

section
variable {ρ τ : Type} [LinearOrder τ] (time : ρ → τ) (expired : ρ → Bool) (limit : Nat)

/-- The rows of a batch. -/
def oldest (rows : List ρ) : List ρ :=
  ((rows.filter expired).insertionSort fun a b => time a ≤ time b).take limit

variable {time expired limit} {rows l : List ρ} {r : ρ} {t : τ}

theorem oldest_expired (h : r ∈ oldest time expired limit rows) : r ∈ rows ∧ expired r = true := by
  have hsorted := List.mem_of_mem_take h
  rw [List.mem_insertionSort] at hsorted
  exact List.mem_filter.mp hsorted

theorem length_oldest : (oldest time expired limit rows).length = min limit (rows.countP expired) := by
  rw [oldest, List.length_take, List.length_insertionSort, List.countP_eq_length_filter]

theorem oldest_nodup (h : rows.Nodup) : (oldest time expired limit rows).Nodup := by
  refine List.Nodup.sublist (List.take_sublist _ _) ?_
  exact (List.perm_insertionSort _ _).nodup_iff.mpr (h.filter _)

/-- What is from before a time comes first in the order of times. -/
theorem count_take_sorted (h : l.Pairwise fun a b => time a ≤ time b) (t : τ) (k : Nat) :
    (l.take k).countP (fun r => decide (time r < t)) = min k (l.countP fun r => decide (time r < t)) := by
  induction l generalizing k with
  | nil => simp
  | cons a l ih =>
    obtain ⟨ha, hl⟩ := List.pairwise_cons.mp h
    cases k with
    | zero => simp
    | succ k =>
      rw [List.take_succ_cons, List.countP_cons, List.countP_cons, ih hl]
      by_cases hat : time a < t
      · simp only [hat, decide_true, if_true]
        omega
      · have hnone : l.countP (fun r => decide (time r < t)) = 0 := by
          rw [List.countP_eq_zero]
          intro b hb hbt
          exact hat (lt_of_le_of_lt (ha b hb) (of_decide_eq_true hbt))
        simp [hat, hnone]

/-- A batch begins with the rows from before a time where they have all expired. -/
theorem count_oldest (hold : ∀ r ∈ rows, time r < t → expired r = true) :
    (oldest time expired limit rows).countP (fun r => decide (time r < t)) =
      min limit (rows.countP fun r => decide (time r < t)) := by
  rw [oldest, count_take_sorted (List.pairwise_insertionSort _ _), (List.perm_insertionSort _ _).countP_eq,
    List.countP_filter]
  congr 1
  refine List.countP_congr fun r hr => ?_
  simp only [Bool.and_eq_true, decide_eq_true_eq, and_iff_left_iff_imp]
  exact hold r hr

/-! ## The table after a batch -/

variable [DecidableEq ρ]

def prune (time : ρ → τ) (expired : ρ → Bool) (limit : Nat) (rows : List ρ) : List ρ :=
  rows.filter fun r => r ∉ oldest time expired limit rows

theorem prune_sublist : (prune time expired limit rows).Sublist rows := List.filter_sublist

theorem expired_of_gone (h : r ∈ rows) (hgone : r ∉ prune time expired limit rows) : expired r = true := by
  rw [prune, List.mem_filter] at hgone
  have hold : r ∈ oldest time expired limit rows := by
    by_contra hnot
    exact hgone ⟨h, decide_eq_true hnot⟩
  exact (oldest_expired hold).2

/-- A batch takes its limit off the rows from before a time, where they have all expired. -/
theorem count_prune (h : rows.Nodup) (hold : ∀ r ∈ rows, time r < t → expired r = true) :
    (prune time expired limit rows).countP (fun r => decide (time r < t)) =
      rows.countP (fun r => decide (time r < t)) - limit := by
  have htaken : (rows.filter fun r => decide (r ∈ oldest time expired limit rows)).Perm
      (oldest time expired limit rows) := by
    refine (List.perm_ext_iff_of_nodup (h.filter _) (oldest_nodup h)).mpr fun r => ?_
    simp only [List.mem_filter, decide_eq_true_eq, and_iff_right_iff_imp]
    exact fun hr => (oldest_expired hr).1
  have hsplit : rows.countP (fun r => decide (time r < t)) =
      (rows.filter fun r => decide (r ∈ oldest time expired limit rows)).countP (fun r => decide (time r < t)) +
        (prune time expired limit rows).countP fun r => decide (time r < t) := by
    rw [prune, List.countP_eq_countP_filter_add rows _ fun r => decide (r ∈ oldest time expired limit rows)]
    simp
  rw [htaken.countP_eq, count_oldest hold] at hsplit
  omega

end

end Pruning
