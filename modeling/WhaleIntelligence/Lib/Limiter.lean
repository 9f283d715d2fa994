import Mathlib.Algebra.Order.Group.Defs
import Mathlib.Logic.Relation

/- Limiters that count what was recorded.

   Who asks is admitted, later performs, and later still is recorded. The limiter counts
   the records of the window before it admits, so what is admitted and not recorded
   yet is not in its count: only where it is counted as well (`Step.enter`) are at most
   so many performed in any window (`performed_le`).

   An open end of the window is its start: the window of `u` is `(u - window, u]`. -/
namespace Limiter
open Relation

/-- The clock, how many are admitted and have not performed, how many have performed
and are not recorded, and the times of the records and of what was performed. -/
@[ext]
structure State (τ : Type) where
  clock : τ
  admitted : Nat
  unrecorded : Nat
  recorded : List τ
  performed : List τ
  deriving DecidableEq, Repr

section
variable {τ : Type} [LinearOrder τ] {u v : τ} {times : List τ}

/-- How many of the times are after `u`. -/
def after (u : τ) (times : List τ) : Nat := times.countP fun t => u < t

theorem after_append (u : τ) (l l' : List τ) : after u (l ++ l') = after u l + after u l' := List.countP_append

theorem after_anti (h : u ≤ v) (times : List τ) : after v times ≤ after u times := by
  apply List.countP_mono_left
  intro t _ ht
  rw [decide_eq_true_eq] at ht ⊢
  exact h.trans_lt ht

/-- Where no time is past `u`, none is after it. -/
theorem after_eq_zero (h : ∀ t ∈ times, t ≤ u) : after u times = 0 := by
  rw [after, List.countP_eq_zero]
  intro t ht
  rw [decide_eq_true_eq]
  exact not_lt.mpr (h t ht)

variable [AddCommGroup τ]

/-- How many of the times are in the window that ends with `u`. -/
def within (window u : τ) (times : List τ) : Nat := times.countP fun t => u - window < t && t ≤ u

inductive Step (limit : Nat) (window : τ) : State τ → State τ → Prop
  | wait (s : State τ) (now : τ) : s.clock ≤ now → Step limit window s { s with clock := now }
  | enter (s : State τ) : after (s.clock - window) s.recorded + s.unrecorded + s.admitted < limit →
      Step limit window s { s with admitted := s.admitted + 1 }
  | perform (s : State τ) (n : Nat) : s.admitted = n + 1 → Step limit window s
      { s with admitted := n, unrecorded := s.unrecorded + 1, performed := s.performed ++ [s.clock] }
  | record (s : State τ) (n : Nat) : s.unrecorded = n + 1 → Step limit window s
      { s with unrecorded := n, recorded := s.recorded ++ [s.clock] }

variable {limit : Nat} {window : τ} {s t : State τ}

theorem within_append (window u : τ) (l l' : List τ) :
    within window u (l ++ l') = within window u l + within window u l' :=
  List.countP_append

theorem within_le_after (window u : τ) (times : List τ) : within window u times ≤ after (u - window) times := by
  apply List.countP_mono_left
  intro t _ ht
  rw [Bool.and_eq_true] at ht
  exact ht.1

/-! ## The invariant -/

structure Inv (limit : Nat) (window : τ) (s : State τ) : Prop where
  past : ∀ t ∈ s.performed, t ≤ s.clock
  /-- What was performed after a time was recorded after it, or is not recorded yet. -/
  counted : ∀ u, after u s.performed ≤ after u s.recorded + s.unrecorded
  /-- A window that has not ended has room for all that are admitted. -/
  room : ∀ u, s.clock ≤ u → after (u - window) s.performed + s.admitted ≤ limit
  bounded : ∀ u, within window u s.performed ≤ limit

variable [IsOrderedAddMonoid τ]

theorem inv_step (hs : Inv limit window s) (h : Step limit window s t) : Inv limit window t := by
  cases h with
  | wait now hnow => exact ⟨fun t ht => (hs.past t ht).trans hnow, hs.counted,
      fun u hu => hs.room u (hnow.trans hu), hs.bounded⟩
  | enter hroom =>
    refine ⟨hs.past, hs.counted, fun u hu => ?_, hs.bounded⟩
    have hcounted := hs.counted (s.clock - window)
    have hanti : after (u - window) s.performed ≤ after (s.clock - window) s.performed :=
      after_anti (sub_le_sub_right hu window) s.performed
    show after (u - window) s.performed + (s.admitted + 1) ≤ limit
    omega
  | perform n hn =>
    have hafter : ∀ u, after u [s.clock] ≤ 1 := fun u => List.countP_le_length
    refine ⟨fun t ht => ?_, fun u => ?_, fun u hu => ?_, fun u => ?_⟩
    · obtain ht | ht := List.mem_append.mp ht
      · exact hs.past t ht
      · exact (List.mem_singleton.mp ht).le
    · have hcounted := hs.counted u
      have hone := hafter u
      show after u (s.performed ++ [s.clock]) ≤ after u s.recorded + (s.unrecorded + 1)
      rw [after_append]
      omega
    · have hroom := hs.room u hu
      have hone := hafter (u - window)
      show after (u - window) (s.performed ++ [s.clock]) + n ≤ limit
      rw [after_append]
      omega
    · show within window u (s.performed ++ [s.clock]) ≤ limit
      rw [within_append]
      rcases le_or_gt s.clock u with hu | hu
      · have hroom := hs.room u hu
        have hle := within_le_after window u s.performed
        have hone : within window u [s.clock] ≤ 1 := List.countP_le_length
        omega
      · -- the window had ended
        have hzero : within window u [s.clock] = 0 := by
          simp [within, not_le.mpr hu]
        have hbounded := hs.bounded u
        omega
  | record n hn =>
    refine ⟨hs.past, fun u => ?_, hs.room, hs.bounded⟩
    show after u s.performed ≤ after u (s.recorded ++ [s.clock]) + n
    rcases le_or_gt s.clock u with hu | hu
    · rw [after_eq_zero fun t ht => (hs.past t ht).trans hu]
      exact Nat.zero_le _
    · have hone : after u [s.clock] = 1 := by simp [after, hu]
      have hcounted := hs.counted u
      rw [after_append]
      omega

/-- In every window at most so many are performed. -/
theorem performed_le (hrun : ReflTransGen (Step limit window) s t) (hadmitted : s.admitted = 0)
    (hperformed : s.performed = []) (u : τ) : within window u t.performed ≤ limit := by
  have hs : Inv limit window s := by
    refine ⟨?_, ?_, ?_, ?_⟩
    · simp [hperformed]
    · simp [hperformed, after]
    · simp [hperformed, hadmitted, after]
    · simp [hperformed, within]
  have ht : Inv limit window t := by
    induction hrun with
    | refl => exact hs
    | tail _ hstep ih => exact inv_step ih hstep
  exact ht.bounded u

end

end Limiter
