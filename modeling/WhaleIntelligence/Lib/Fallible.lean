import Mathlib.Data.List.Forall2
import Mathlib.Data.List.ReduceOption

/- Loops whose rounds can fail.

   The first round that fails ends the loop with its error, and nothing of the rounds
   after it is seen (`mapM_error_iff`). A loop that collects what its rounds return in
   a state is the collection of all that they return (`foldlM_eq_mapM`), so whether it
   fails does not depend on the state. -/
namespace Fallible

section
variable {ε α β σ : Type} {f : α → Except ε β} {l : List α}

@[simp] theorem ok_bind (b : β) (g : β → Except ε σ) : (Except.ok b >>= g) = g b := rfl

@[simp] theorem error_bind (e : ε) (g : β → Except ε σ) : (Except.error e >>= g) = .error e := rfl

theorem bind_eq_ok {r : Except ε β} {g : β → Except ε σ} {c : σ} :
    (r >>= g) = .ok c ↔ ∃ b, r = .ok b ∧ g b = .ok c := by
  cases r with
  | error e => simp
  | ok b => simp

theorem map_eq_ok {γ : Type} {g : β → γ} {r : Except ε β} {c : γ} : r.map g = .ok c ↔ ∃ b, r = .ok b ∧ g b = c := by
  cases r with
  | error e => simp [Except.map]
  | ok b => simp [Except.map]

theorem map_eq_error {γ : Type} {g : β → γ} {r : Except ε β} {e : ε} : r.map g = .error e ↔ r = .error e := by
  cases r with
  | error e => simp [Except.map]
  | ok b => simp [Except.map]

/-- A loop succeeds where all its rounds do. -/
theorem mapM_ok_iff {bs : List β} : l.mapM f = .ok bs ↔ List.Forall₂ (fun a b => f a = .ok b) l bs := by
  induction l generalizing bs with
  | nil =>
    rw [List.mapM_nil, List.forall₂_nil_left_iff]
    exact ⟨fun h => (Except.ok.inj h).symm, fun h => h ▸ rfl⟩
  | cons a l ih =>
    rw [List.mapM_cons, List.forall₂_cons_left_iff]
    cases hf : f a with
    | error e =>
      refine ⟨fun h => (by cases h), fun h => ?_⟩
      obtain ⟨b, bs, hb, -⟩ := h
      cases hb
    | ok b =>
      refine ⟨fun h => ?_, fun h => ?_⟩
      · cases hl : l.mapM f with
        | error e =>
          rw [hl] at h
          cases h
        | ok rest =>
          rw [hl] at h
          cases h
          exact ⟨b, rest, rfl, ih.mp hl, rfl⟩
      · obtain ⟨b', rest, hb, hrest, rfl⟩ := h
        rw [ih.mpr hrest, Except.ok.inj hb]
        rfl

/-- A loop whose rounds all succeed is a map. -/
theorem mapM_eq_map {g : α → β} (h : ∀ a ∈ l, f a = .ok (g a)) : l.mapM f = .ok (l.map g) := by
  rw [mapM_ok_iff, List.forall₂_map_right_iff, List.forall₂_same]
  exact h

/-- A search whose rounds all succeed. -/
theorem anyM_eq_any {p : α → Except ε Bool} {g : α → Bool} (h : ∀ a ∈ l, p a = .ok (g a)) :
    l.anyM p = .ok (l.any g) := by
  induction l with
  | nil => rfl
  | cons a l ih =>
    rw [List.anyM, h a List.mem_cons_self, ok_bind, List.any_cons]
    cases g a with
    | true => rfl
    | false => exact ih fun b hb => h b (List.mem_cons_of_mem _ hb)

/-- A loop fails with the error of its first round that fails. -/
theorem mapM_error_iff {e : ε} : l.mapM f = .error e ↔
    ∃ pre a post, l = pre ++ a :: post ∧ (∀ b ∈ pre, ∃ c, f b = .ok c) ∧ f a = .error e := by
  induction l with
  | nil =>
    refine ⟨fun h => (by cases h), fun h => ?_⟩
    obtain ⟨pre, a, post, hl, -⟩ := h
    exact absurd hl (List.append_ne_nil_of_right_ne_nil _ (List.cons_ne_nil _ _)).symm
  | cons a l ih =>
    rw [List.mapM_cons]
    cases hf : f a with
    | error e' =>
      have hfail : (Except.error e' >>= fun b => l.mapM f >>= fun bs => pure (b :: bs) : Except ε (List β)) =
          .error e ↔ e' = e := ⟨Except.error.inj, fun h => congrArg Except.error h⟩
      rw [hfail]
      refine ⟨fun h => ⟨[], a, l, rfl, fun b hb => absurd hb List.not_mem_nil, h ▸ hf⟩, fun h => ?_⟩
      obtain ⟨pre, a', post, hl, hpre, ha'⟩ := h
      cases pre with
      | nil =>
        obtain rfl : a = a' := (List.cons.inj hl).1
        exact Except.error.inj (hf.symm.trans ha')
      | cons b pre =>
        obtain ⟨c, hc⟩ := hpre b List.mem_cons_self
        rw [← (List.cons.inj hl).1, hf] at hc
        cases hc
    | ok b =>
      have hrest : (Except.ok b >>= fun b => l.mapM f >>= fun bs => pure (b :: bs) : Except ε (List β)) = .error e ↔
          l.mapM f = .error e := by
        cases l.mapM f with
        | error e' => exact Iff.rfl
        | ok bs => exact ⟨fun h => (by cases h), fun h => (by cases h)⟩
      rw [hrest, ih]
      refine ⟨fun h => ?_, fun h => ?_⟩
      · obtain ⟨pre, a', post, rfl, hpre, ha'⟩ := h
        refine ⟨a :: pre, a', post, rfl, fun c hc => ?_, ha'⟩
        obtain rfl | hc := List.mem_cons.mp hc
        · exact ⟨b, hf⟩
        · exact hpre c hc
      · obtain ⟨pre, a', post, hl, hpre, ha'⟩ := h
        cases pre with
        | nil =>
          obtain ⟨rfl, -⟩ := List.cons.inj hl
          rw [hf] at ha'
          cases ha'
        | cons c pre => exact ⟨pre, a', post, (List.cons.inj hl).2, fun d hd => hpre d (List.mem_cons_of_mem _ hd), ha'⟩

theorem mapM_ok_of_forall (h : ∀ a ∈ l, ∃ b, f a = .ok b) : ∃ bs, l.mapM f = .ok bs := by
  cases hl : l.mapM f with
  | ok bs => exact ⟨bs, rfl⟩
  | error e =>
    obtain ⟨pre, a, post, rfl, -, ha⟩ := mapM_error_iff.mp hl
    obtain ⟨b, hb⟩ := h a (by simp)
    rw [ha] at hb
    cases hb

theorem forall_ok_of_mapM {bs : List β} (h : l.mapM f = .ok bs) : ∀ a ∈ l, ∃ b, f a = .ok b := by
  have hall := mapM_ok_iff.mp h
  clear h
  induction hall with
  | nil => exact fun a ha => absurd ha List.not_mem_nil
  | cons hb _ ih => exact List.forall_mem_cons.mpr ⟨⟨_, hb⟩, ih⟩

/-- A step that fails exactly where `P` holds, and always with the error `e`. -/
structure FailsIff (r : Except ε β) (e : ε) (P : Prop) : Prop where
  fails : r = .error e ↔ P
  only : ∀ e', r = .error e' → e' = e

section
variable {e : ε} {r : Except ε β} {P Q : Prop}

theorem FailsIff.of_ok (b : β) (hP : ¬ P) : FailsIff (.ok b : Except ε β) e P :=
  ⟨⟨fun h => (by cases h), fun h => absurd h hP⟩, fun _ h => (by cases h)⟩

theorem FailsIff.of_isOk (h : ∃ b, r = .ok b) (hP : ¬ P) : FailsIff r e P := by
  obtain ⟨b, rfl⟩ := h
  exact FailsIff.of_ok b hP

theorem FailsIff.of_error (hP : P) : FailsIff (.error e : Except ε β) e P :=
  ⟨⟨fun _ => hP, fun _ => rfl⟩, fun _ h => (Except.error.inj h).symm⟩

theorem FailsIff.congr (h : FailsIff r e P) (hPQ : P ↔ Q) : FailsIff r e Q := ⟨h.fails.trans hPQ, h.only⟩

theorem FailsIff.isOk (h : FailsIff r e P) (hP : ¬ P) : ∃ b, r = .ok b := by
  cases r with
  | ok b => exact ⟨b, rfl⟩
  | error e' =>
    obtain rfl := h.only e' rfl
    exact absurd (h.fails.mp rfl) hP

theorem FailsIff.map (h : FailsIff r e P) (g : β → σ) : FailsIff (r.map g) e P :=
  ⟨map_eq_error.trans h.fails, fun e' he' => h.only e' (map_eq_error.mp he')⟩

/-- Where the second step fails does not depend on what the first returns. -/
theorem FailsIff.bind {g : β → Except ε σ} (h : FailsIff r e P) (hg : ∀ b, FailsIff (g b) e Q) :
    FailsIff (r >>= g) e (P ∨ Q) := by
  cases r with
  | error e' =>
    obtain rfl := h.only e' rfl
    exact FailsIff.of_error (Or.inl (h.fails.mp rfl))
  | ok b =>
    have hP : ¬ P := fun hP => (by cases h.fails.mpr hP)
    exact (hg b).congr ⟨Or.inr, fun hPQ => hPQ.resolve_left hP⟩

/-- A step that builds something of what it has read. -/
theorem FailsIff.bind_ok (h : FailsIff r e P) (g : β → σ) : FailsIff (r >>= fun b => .ok (g b)) e P :=
  (h.bind fun b => FailsIff.of_ok (g b) not_false).congr (or_iff_left not_false)

theorem FailsIff.mapM {R : α → Prop} (h : ∀ a, FailsIff (f a) e (R a)) (l : List α) :
    FailsIff (l.mapM f) e (∃ a ∈ l, R a) := by
  induction l with
  | nil => exact FailsIff.of_ok [] (by simp)
  | cons a l ih =>
    rw [List.mapM_cons]
    exact ((h a).bind fun b => ih.bind_ok (b :: ·)).congr (List.exists_mem_cons_iff R a l).symm

end

/-- A loop over a state to which each round adds what it returns. -/
theorem foldlM_eq_mapM {body : σ → α → Except ε σ} {g : σ → β → σ} (h : ∀ s a, body s a = (f a).map (g s))
    (l : List α) (s : σ) : l.foldlM body s = (l.mapM f).map fun bs => bs.foldl g s := by
  induction l generalizing s with
  | nil => rfl
  | cons a l ih =>
    rw [List.foldlM_cons, List.mapM_cons, h]
    cases f a with
    | error e => rfl
    | ok b =>
      show l.foldlM body (g s b) = _
      rw [ih]
      cases l.mapM f with
      | error e => rfl
      | ok bs => rfl

theorem map_bind {τ γ : Type} {r : Except ε β} {r' : Except ε γ} {g : β → Except ε σ} {g' : γ → Except ε τ}
    {part : β → γ}
    {whole : σ → τ} (h : r.map part = r') (hg : ∀ b, (g b).map whole = g' (part b)) :
    (r >>= g).map whole = r' >>= g' := by
  subst h
  cases r with
  | error e => rfl
  | ok b => exact hg b

theorem map_bind_self {τ : Type} {r : Except ε β} {g : β → Except ε σ} {g' : β → Except ε τ} {whole : σ → τ}
    (hg : ∀ b, (g b).map whole = g' b) : (r >>= g).map whole = r >>= g' := by
  cases r with
  | error e => rfl
  | ok b => exact hg b

/-- A loop whose rounds are those of another on a part of the state. -/
theorem map_foldlM {τ : Type} {body : σ → α → Except ε σ} {body' : τ → α → Except ε τ} {part : σ → τ}
    (h : ∀ s a, (body s a).map part = body' (part s) a) (l : List α) (s : σ) :
    (l.foldlM body s).map part = l.foldlM body' (part s) := by
  induction l generalizing s with
  | nil => rfl
  | cons a l ih =>
    rw [List.foldlM_cons, List.foldlM_cons, ← h]
    cases body s a with
    | error e => rfl
    | ok s' => exact ih s'

/-- What the rounds see first, where each keeps what was seen before it. -/
theorem foldlM_first {body : σ → α → Except ε σ} {seen : σ → Option β} {sees : α → List β}
    (h : ∀ s a s', body s a = .ok s' → seen s' = (seen s).or (sees a).head?) {s s' : σ}
    (hl : l.foldlM body s = .ok s') : seen s' = (seen s).or (l.flatMap sees).head? := by
  induction l generalizing s with
  | nil =>
    obtain rfl := Except.ok.inj hl
    simp
  | cons a l ih =>
    rw [List.foldlM_cons] at hl
    obtain ⟨u, hu, hl⟩ := bind_eq_ok.mp hl
    rw [ih hl, h s a u hu, List.flatMap_cons, List.head?_append, Option.or_assoc]

/-! ## What the rounds return -/

section
variable {o : List (Option β)} {g : α → Except ε (Option β)} {b : β} {p : β → Bool}

/-- What a loop collects is what some round returns. -/
theorem mem_reduceOption_mapM (h : l.mapM g = .ok o) : b ∈ o.reduceOption ↔ ∃ a ∈ l, g a = .ok (some b) := by
  rw [List.reduceOption_mem_iff]
  have hall := mapM_ok_iff.mp h
  clear h
  induction hall with
  | nil => simp
  | cons ha _ ih => simp [ha, ih, eq_comm]

theorem mapM_append_ok {l' : List α} (h : (l ++ l').mapM g = .ok o) :
    ∃ os os', o = os ++ os' ∧ l.mapM g = .ok os ∧ l'.mapM g = .ok os' := by
  rw [List.mapM_append] at h
  cases hl : l.mapM g with
  | error e =>
    rw [hl, error_bind] at h
    cases h
  | ok os =>
    cases hl' : l'.mapM g with
    | error e =>
      rw [hl, hl', ok_bind, error_bind] at h
      cases h
    | ok os' =>
      rw [hl, hl', ok_bind, ok_bind] at h
      exact ⟨os, os', (Except.ok.inj h).symm, rfl, rfl⟩

/-- What is read of the collected values is read of the rounds. -/
theorem map_reduceOption_mapM {γ : Type} {read : β → γ} {sees : α → Option γ}
    (h : ∀ a ∈ l, ∀ r, g a = .ok r → r.map read = sees a) (hl : l.mapM g = .ok o) :
    o.reduceOption.map read = l.filterMap sees := by
  have hall := mapM_ok_iff.mp hl
  clear hl
  induction hall with
  | nil => rfl
  | @cons a r l o ha _ ih =>
    rw [List.forall_mem_cons] at h
    rw [List.filterMap_cons, ← h.1 r ha, ← ih h.2]
    cases r <;> rfl

/-- The first that is found is the first that a round returns. -/
theorem find?_reduceOption_mapM {pre post : List α} {a : α} (h : (pre ++ a :: post).mapM g = .ok o)
    (ha : g a = .ok (some b)) (hb : p b = true) (hpre : ∀ c ∈ pre, ∀ d, g c = .ok (some d) → p d = false) :
    o.reduceOption.find? p = some b := by
  obtain ⟨os, os', rfl, hos, hos'⟩ := mapM_append_ok h
  have hnone : os.reduceOption.find? p = none := by
    rw [List.find?_eq_none]
    intro d hd
    obtain ⟨c, hc, hcd⟩ := (mem_reduceOption_mapM hos).mp hd
    rw [hpre c hc d hcd]
    decide
  obtain ⟨head, rest, hhead, -, rfl⟩ := List.forall₂_cons_left_iff.mp (mapM_ok_iff.mp hos')
  obtain rfl : some b = head := Except.ok.inj (ha.symm.trans hhead)
  rw [List.reduceOption_append, List.find?_append, hnone, Option.none_or, List.reduceOption_cons_of_some,
    List.find?_cons_of_pos hb]

end

end

end Fallible
