import WhaleIntelligence.Lib.Fallible

/- Transactions: statements that share the store until they are committed.

   A statement reads and changes the store, and it may fail. The first that fails
   ends the transaction, and then the store is the one before it (`commit_error`);
   one that comes to its end has done all its statements (`commit_ok`). Faults from
   outside are part of what a statement does (`statement`). -/
namespace Transaction
open Fallible

abbrev Tx (σ ε α : Type) := StateT σ (Except ε) α

section
variable {σ ε α β : Type} {tx : Tx σ ε α} {next : α → Tx σ ε β} {s t u : σ} {a : α} {b : β} {e : ε}

/-- The answer of the transaction and the store after it. -/
def commit (tx : Tx σ ε α) (s : σ) : Except ε α × σ :=
  match tx s with
  | .ok (a, t) => (.ok a, t)
  | .error e => (.error e, s)

/-- A statement that fails where there is a fault. -/
def statement (fault : Option ε) (run : σ → Except ε (α × σ)) : Tx σ ε α := fun s =>
  match fault with
  | some e => .error e
  | none => run s

theorem commit_error (h : (commit tx s).1 = .error e) : (commit tx s).2 = s := by
  unfold commit at h ⊢
  cases htx : tx s with
  | error e' => rfl
  | ok r =>
    rw [htx] at h
    cases h

theorem commit_ok (h : (commit tx s).1 = .ok a) : tx s = .ok (a, (commit tx s).2) := by
  unfold commit at h ⊢
  cases htx : tx s with
  | error e' =>
    rw [htx] at h
    cases h
  | ok r =>
    rw [htx] at h
    obtain rfl := Except.ok.inj h
    rfl

theorem run_bind : (tx >>= next) s = tx s >>= fun r => next r.1 r.2 := rfl

theorem run_pure : (pure a : Tx σ ε α) s = .ok (a, s) := rfl

/-- A transaction of two parts ends well where both do, one after the other. -/
theorem run_bind_ok : (tx >>= next) s = .ok (b, u) ↔ ∃ a t, tx s = .ok (a, t) ∧ next a t = .ok (b, u) := by
  rw [run_bind, bind_eq_ok]
  exact ⟨fun ⟨r, hr, h⟩ => ⟨r.1, r.2, hr, h⟩, fun ⟨a, t, hr, h⟩ => ⟨(a, t), hr, h⟩⟩

theorem statement_ok {fault : Option ε} {run : σ → Except ε (α × σ)} :
    statement fault run s = .ok (a, t) ↔ fault = none ∧ run s = .ok (a, t) := by
  cases fault with
  | none => exact ⟨fun h => ⟨rfl, h⟩, fun h => h.2⟩
  | some e => exact ⟨fun h => (by cases h), fun h => (by cases h.1)⟩

end

end Transaction
