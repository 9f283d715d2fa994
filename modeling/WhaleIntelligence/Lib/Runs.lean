import Mathlib.Data.List.Basic

/- Runs of systems, and what holds throughout them.

   A trace is a list of effects on a state, and a property holds always along it
   when it holds before the first effect and after each one (`Always`); that is, in
   the state of every prefix (`always_iff`).

   A system is a relation between a state, an action and the next state. A run is
   its actions with the states they lead between (`Run`), and an invariant of the
   steps is one of the runs (`Run.invariant`).

   A loop whose body may fail goes through where every round does (`foldlM_ok`). -/
namespace Runs

/-! ## Traces -/

section
variable {σ ε : Type} (apply : σ → ε → σ)

/-- The property holds in the state and after each of the effects. -/
def Always (P : σ → Prop) : σ → List ε → Prop
  | s, [] => P s
  | s, e :: es => P s ∧ Always P (apply s e) es

variable {apply} {P Q : σ → Prop} {s : σ} {es fs : List ε}

theorem Always.start (h : Always apply P s es) : P s := by
  cases es with
  | nil => exact h
  | cons e es => exact h.1

theorem Always.last (h : Always apply P s es) : P (es.foldl apply s) := by
  induction es generalizing s with
  | nil => exact h
  | cons e es ih => exact ih h.2

theorem always_append : Always apply P s (es ++ fs) ↔
    Always apply P s es ∧ Always apply P (es.foldl apply s) fs := by
  induction es generalizing s with
  | nil => exact ⟨fun h => ⟨h.start, h⟩, fun h => h.2⟩
  | cons e es ih =>
    show P s ∧ Always apply P (apply s e) (es ++ fs) ↔ _
    rw [ih, ← and_assoc]
    exact Iff.rfl

/-- What holds always holds in the state of every prefix. -/
theorem always_iff : Always apply P s es ↔ ∀ seen, seen <+: es → P (seen.foldl apply s) := by
  refine ⟨fun h seen hseen => ?_, fun h => ?_⟩
  · obtain ⟨rest, rfl⟩ := hseen
    exact (always_append.mp h).1.last
  · induction es generalizing s with
    | nil => exact h [] List.prefix_rfl
    | cons e es ih =>
      refine ⟨h [] List.nil_prefix, ih fun seen hseen => ?_⟩
      exact h (e :: seen) (List.cons_prefix_cons.mpr ⟨rfl, hseen⟩)

/-- A property that no effect of the list can end holds always. -/
theorem always_of_kept (hs : P s) (h : ∀ e ∈ es, ∀ s, P s → P (apply s e)) : Always apply P s es := by
  induction es generalizing s with
  | nil => exact hs
  | cons e es ih =>
    refine ⟨hs, ih (h e List.mem_cons_self s hs) fun f hf => h f (List.mem_cons_of_mem _ hf)⟩

end

/-! ## Transition systems -/

section
variable {σ ε : Type}

/-- The actions lead from the one state to the other. -/
def Run (step : σ → ε → σ → Prop) : σ → List ε → σ → Prop
  | s, [], t => t = s
  | s, e :: es, u => ∃ t, step s e t ∧ Run step t es u

variable {step step' : σ → ε → σ → Prop} {s t u : σ} {e : ε} {es fs : List ε}

/-- What every step keeps every run keeps. -/
theorem Run.invariant {I : σ → Prop} (h : Run step s es t) (hs : I s)
    (hstep : ∀ s e t, I s → step s e t → I t) : I t := by
  induction es generalizing s with
  | nil => obtain rfl := h; exact hs
  | cons e es ih =>
    obtain ⟨r, hr, hrest⟩ := h
    exact ih hrest (hstep s e r hs hr)

/-- What every step keeps of the actions so far and the state every run keeps. -/
theorem Run.history {I : List ε → σ → Prop} (h : Run step s es t) (hs : I fs s)
    (hstep : ∀ es s e t, I es s → step s e t → I (es ++ [e]) t) : I (fs ++ es) t := by
  induction es generalizing s fs with
  | nil => obtain rfl := h; rw [List.append_nil]; exact hs
  | cons e es ih =>
    obtain ⟨r, hr, hrest⟩ := h
    rw [List.append_cons]
    exact ih hrest (hstep fs s e r hs hr)

theorem Run.mono (h : Run step s es t) (hstep : ∀ s e t, step s e t → step' s e t) : Run step' s es t := by
  induction es generalizing s with
  | nil => exact h
  | cons e es ih =>
    obtain ⟨r, hr, hrest⟩ := h
    exact ⟨r, hstep s e r hr, ih hrest⟩

/-- A run over two lists of actions goes through a state between them. -/
theorem run_append : Run step s (es ++ fs) u ↔ ∃ t, Run step s es t ∧ Run step t fs u := by
  induction es generalizing s with
  | nil =>
    refine ⟨fun h => ⟨s, rfl, h⟩, fun h => ?_⟩
    obtain ⟨t, rfl, h⟩ := h
    exact h
  | cons e es ih =>
    refine ⟨fun h => ?_, fun h => ?_⟩
    · obtain ⟨r, hr, hrest⟩ := h
      obtain ⟨t, ht, hu⟩ := ih.mp hrest
      exact ⟨t, ⟨r, hr, ht⟩, hu⟩
    · obtain ⟨t, ⟨r, hr, ht⟩, hu⟩ := h
      exact ⟨r, hr, ih.mpr ⟨t, ht, hu⟩⟩

/-- The runs of steps that a partial function takes are what it computes. -/
theorem run_iff_foldlM {next : σ → ε → Option σ} (h : ∀ s e t, step s e t ↔ next s e = some t) :
    Run step s es u ↔ es.foldlM next s = some u := by
  induction es generalizing s with
  | nil => exact ⟨fun h => by rw [h]; rfl, fun h => (Option.some.inj h).symm⟩
  | cons e es ih =>
    rw [List.foldlM_cons, Option.bind_eq_bind, Option.bind_eq_some_iff]
    exact exists_congr fun t => and_congr (h s e t) ih

/-- The same for steps that are taken only where a check lets them. -/
theorem run_checked_iff {next : σ → ε → Option σ} {check : σ → ε → Bool} :
    Run (fun s e t => next s e = some t ∧ check s e = true) s es u ↔
      es.foldlM (fun s e => if check s e then next s e else none) s = some u := by
  apply run_iff_foldlM
  intro s e t
  split <;> simp_all

theorem run_singleton : Run step s [e] u ↔ step s e u := by
  refine ⟨fun h => ?_, fun h => ⟨u, h, rfl⟩⟩
  obtain ⟨t, ht, rfl⟩ := h
  exact ht

end

/-! ## Loops that may fail -/

section
variable {σ ε δ : Type} {body : σ → ε → Except δ σ} {es fs : List ε} {s : σ}

theorem foldlM_ok_from {I : List ε → σ → Prop} (hs : I fs s)
    (hround : ∀ done e s, e ∈ es → I done s → ∃ t, body s e = .ok t ∧ I (done ++ [e]) t) :
    ∃ t, es.foldlM body s = .ok t ∧ I (fs ++ es) t := by
  induction es generalizing s fs with
  | nil => exact ⟨s, rfl, by rw [List.append_nil]; exact hs⟩
  | cons e es ih =>
    obtain ⟨r, hr, hI⟩ := hround fs e s List.mem_cons_self hs
    obtain ⟨t, ht, hI⟩ := ih hI fun done e' s' he' => hround done e' s' (List.mem_cons_of_mem _ he')
    refine ⟨t, ?_, by rw [List.append_cons]; exact hI⟩
    rw [List.foldlM_cons, hr]
    exact ht

/-- A loop whose every round succeeds and keeps an invariant of the items so far succeeds with it. -/
theorem foldlM_ok (I : List ε → σ → Prop) (hs : I [] s)
    (hround : ∀ done e s, e ∈ es → I done s → ∃ t, body s e = .ok t ∧ I (done ++ [e]) t) :
    ∃ t, es.foldlM body s = .ok t ∧ I es t :=
  foldlM_ok_from hs hround

end

end Runs
