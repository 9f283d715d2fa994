import Mathlib.Logic.Relation

/- Loops as the iteration of a step that is `none` when the loop has ended.

   `rounds` runs at most so many rounds. A measure that every round decreases
   bounds them (`rounds_exits`), and then what the loop computes is the state that
   its rounds reach (`rounds_eq`): the number of rounds given to it plays no part. -/
namespace Loop

section
variable {σ : Type} (step : σ → Option σ)

/-- One round of the loop leads to the other. -/
def Next (s t : σ) : Prop := step s = some t

/-- At most `n` rounds of the loop. -/
def rounds : Nat → σ → σ
  | 0, s => s
  | n + 1, s =>
    match step s with
    | none => s
    | some t => rounds n t

variable {step}

theorem rounds_done {s : σ} (h : step s = none) (n : Nat) : rounds step n s = s := by
  cases n with
  | zero => rfl
  | succ n => rw [rounds, h]

theorem rounds_next {s t : σ} (h : step s = some t) (n : Nat) : rounds step (n + 1) s = rounds step n t := by
  rw [rounds, h]

variable {μ : σ → Nat} (hμ : ∀ s t, step s = some t → μ t < μ s)
include hμ

/-- The loop has ended after as many rounds as the measure says. -/
theorem rounds_exits : ∀ (n : Nat) (s : σ), μ s ≤ n → step (rounds step n s) = none
  | 0, s, hn => by
    cases hstep : step s with
    | none => exact hstep
    | some t =>
      have := hμ s t hstep
      omega
  | n + 1, s, hn => by
    cases hstep : step s with
    | none => rw [rounds_done hstep, hstep]
    | some t =>
      have := hμ s t hstep
      rw [rounds_next hstep]
      exact rounds_exits n t (by omega)

/-- The loop computes the ended state that its rounds reach. -/
theorem rounds_eq {s t : σ} (h : Relation.ReflTransGen (Next step) s t) (ht : step t = none) :
    ∀ n, μ s ≤ n → rounds step n s = t := by
  induction h using Relation.ReflTransGen.head_induction_on with
  | refl => exact fun n _ => rounds_done ht n
  | head hstep _ ih =>
    intro n hn
    have hlt := hμ _ _ hstep
    cases n with
    | zero => omega
    | succ n =>
      rw [rounds_next hstep]
      exact ih n (by omega)

end

end Loop
