import WhaleIntelligence.Lib.Fallible

/- Requests that check before they act.

   A check is a condition with the error of the requests that fail it (`ensure`), or a
   value that has to be there (`demand`). A request goes on after a check just where
   its condition holds, or its value is there (`check_bind`, `demand_bind`), so a
   request succeeds where the conditions of all its checks hold, and what it returns
   is known of them. -/
namespace Checks

section
variable {ε α β : Type}

/-- The condition holds, or the request fails with the error. -/
def ensure (e : ε) (p : Bool) : Except ε Unit := if p then .ok () else .error e

/-- The value is there, or the request fails with the error. -/
def demand (e : ε) : Option α → Except ε α
  | some a => .ok a
  | none => .error e

variable {e : ε} {p : Bool} {o : Option α} {a : α} {b : β}

@[simp] theorem ensure_ok {u : Unit} : ensure e p = .ok u ↔ p = true := by
  unfold ensure
  split <;> simp_all

@[simp] theorem demand_ok : demand e o = .ok a ↔ o = some a := by
  cases o <;> simp [demand]

/-- A request goes on after a check that succeeds. -/
theorem check_bind {r : Except ε Unit} {f : Unit → Except ε β} : (r >>= f) = .ok b ↔ r = .ok () ∧ f () = .ok b := by
  rw [Fallible.bind_eq_ok]
  constructor
  · rintro ⟨⟨⟩, hr, hf⟩
    exact ⟨hr, hf⟩
  · rintro ⟨hr, hf⟩
    exact ⟨(), hr, hf⟩

/-- A request goes on with the value that is there. -/
theorem demand_bind {f : α → Except ε β} : (demand e o >>= f) = .ok b ↔ ∃ a, o = some a ∧ f a = .ok b := by
  rw [Fallible.bind_eq_ok]
  simp

end

end Checks
