import Mathlib.Data.List.MinMax
import Mathlib.Data.Prod.Lex

/- Selection by an encoded order.

   A selection takes the first element of a list with the least key. Where no two elements
   have one key, that is an element of the list and not of its order (`argmin_perm`).

   The keys may encode an order that is finer than theirs. The element with the least key is
   then one that no other precedes in the order exactly where the first of the order is
   overtaken by none (`argmin_first_iff`). Of a lexicographic order, an element overtakes
   another one where the encoding takes the first components for one, though they are not, and
   the keys of the rest decide, or where the first components are one and the rest is
   overtaken (`overtakes_iff`).

   Where the last of several greatest is taken instead, any of them is taken in some order,
   and the order plays no part where there is only one (`lastMax_perm`). -/
namespace Ranking

section
variable {γ κ α : Type} [LinearOrder κ] [LinearOrder α] {key : γ → κ} {ord : γ → α} {l l' : List γ} {r : γ}

/-- The element with the least key, and no other. -/
theorem argmin_eq_some_iff (hkey : ∀ b ∈ l, ∀ c ∈ l, key b = key c → b = c) :
    l.argmin key = some r ↔ r ∈ l ∧ ∀ c ∈ l, key r ≤ key c := by
  refine ⟨fun h => ⟨List.argmin_mem h, fun c hc => List.le_of_mem_argmin hc h⟩, fun h => ?_⟩
  obtain ⟨hr, hleast⟩ := h
  cases hmin : l.argmin key with
  | none =>
    rw [List.argmin_eq_none] at hmin
    rw [hmin] at hr
    exact absurd hr List.not_mem_nil
  | some c =>
    have hc := List.argmin_mem hmin
    have hle : key c ≤ key r := List.le_of_mem_argmin hr hmin
    rw [hkey c hc r hr (le_antisymm hle (hleast c hc))]

theorem argmin_perm (hkey : ∀ b ∈ l, ∀ c ∈ l, key b = key c → b = c) (h : l'.Perm l) :
    l'.argmin key = l.argmin key := by
  have hkey' : ∀ b ∈ l', ∀ c ∈ l', key b = key c → b = c := fun b hb c hc =>
    hkey b (h.mem_iff.mp hb) c (h.mem_iff.mp hc)
  apply Option.ext
  intro r
  rw [argmin_eq_some_iff hkey, argmin_eq_some_iff hkey']
  simp only [h.mem_iff]

/-- What is selected comes first in the order exactly where no element overtakes the first one. -/
theorem argmin_first_iff (hkey : ∀ b ∈ l, ∀ c ∈ l, key b = key c → b = c)
    (hord : ∀ b ∈ l, ∀ c ∈ l, ord b = ord c → b = c) :
    (∀ r, l.argmin key = some r → ∀ c ∈ l, ¬ord c < ord r) ↔
      ∀ b ∈ l, (∀ c ∈ l, ¬ord c < ord b) → ∀ c ∈ l, ¬key c < key b := by
  constructor
  · intro h b hb hfirst c hc
    cases hmin : l.argmin key with
    | none =>
      rw [List.argmin_eq_none] at hmin
      rw [hmin] at hb
      exact absurd hb List.not_mem_nil
    | some r =>
      have hr := List.argmin_mem hmin
      have heq : ord r = ord b := le_antisymm (not_lt.mp (h r hmin b hb)) (not_lt.mp (hfirst r hr))
      rw [← hord r hr b hb heq]
      exact List.not_lt_of_mem_argmin hc hmin
  · intro h r hmin
    have hr := List.argmin_mem hmin
    cases hfirst : l.argmin ord with
    | none =>
      rw [List.argmin_eq_none] at hfirst
      rw [hfirst] at hr
      exact absurd hr List.not_mem_nil
    | some b =>
      have hb := List.argmin_mem hfirst
      have hleast : ∀ c ∈ l, ¬ord c < ord b := fun c hc => List.not_lt_of_mem_argmin hc hfirst
      have hle : key b ≤ key r := not_lt.mp (h b hb hleast r hr)
      have heq : key b = key r := le_antisymm hle (List.le_of_mem_argmin hb hmin)
      rw [hkey b hb r hr heq] at hleast
      exact hleast

end

section
variable {α β κ μ : Type} [LinearOrder α] [LinearOrder β] [LinearOrder κ] [LinearOrder μ] {f : α → κ} {g : β → μ}
  {a a' : α} {b b' : β}

/-- The encodings of the components. -/
def encodeLex (f : α → κ) (g : β → μ) (p : α ×ₗ β) : κ ×ₗ μ := toLex (f (ofLex p).1, g (ofLex p).2)

/-- The second element follows the first one, and its key precedes. -/
def Overtakes (f : α → κ) (p q : α) : Prop := p < q ∧ f q < f p

theorem overtakes_iff (hf : Monotone f) : Overtakes (encodeLex f g) (toLex (a, b)) (toLex (a', b')) ↔
    (a < a' ∧ f a = f a' ∧ g b' < g b) ∨ a = a' ∧ Overtakes g b b' := by
  unfold Overtakes encodeLex
  simp only [ofLex_toLex, Prod.Lex.toLex_lt_toLex]
  constructor
  · rintro ⟨hlt | ⟨rfl, hlt⟩, hkey | ⟨heq, hkey⟩⟩
    · exact absurd hkey (not_lt.mpr (hf hlt.le))
    · exact .inl ⟨hlt, heq.symm, hkey⟩
    · exact absurd hkey (lt_irrefl _)
    · exact .inr ⟨rfl, hlt, hkey⟩
  · rintro (⟨hlt, heq, hkey⟩ | ⟨rfl, hlt, hkey⟩)
    · exact ⟨.inl hlt, .inr ⟨heq.symm, hkey⟩⟩
    · exact ⟨.inr ⟨rfl, hlt⟩, .inr ⟨rfl, hkey⟩⟩

/-- Components that the encoding tells apart are not overtaken. -/
theorem overtakes_of_ne (hf : Monotone f) (hne : a < a' → f a ≠ f a') :
    Overtakes (encodeLex f g) (toLex (a, b)) (toLex (a', b')) ↔ a = a' ∧ Overtakes g b b' := by
  rw [overtakes_iff hf]
  exact or_iff_right fun h => hne h.1 h.2.1

theorem not_overtakes_id (b b' : β) : ¬Overtakes id b b' := fun h => lt_asymm h.1 h.2

end

/-! ## The last of the greatest -/

section
variable {γ : Type} {f : γ → Nat} {l l' : List γ} {a r : γ}

/-- The element with the greatest value, the last one where several have it. -/
def lastMax (f : γ → Nat) (l : List γ) : Option γ :=
  l.foldl (fun best a => some (match best with | none => a | some b => if f a < f b then b else a)) none

theorem lastMax_concat (l : List γ) (a : γ) :
    lastMax f (l ++ [a]) = some (match lastMax f l with | none => a | some b => if f a < f b then b else a) := by
  rw [lastMax, List.foldl_concat, lastMax]

theorem lastMax_spec : lastMax f l = some r → r ∈ l ∧ ∀ c ∈ l, f c ≤ f r := by
  induction l using List.reverseRecOn generalizing r with
  | nil => intro h; cases h
  | append_singleton l a ih =>
    rw [lastMax_concat, Option.some_inj]
    cases hl : lastMax f l with
    | none =>
      rintro rfl
      have hnil : l = [] := by
        cases l using List.reverseRecOn with
        | nil => rfl
        | append_singleton l b => rw [lastMax_concat] at hl; cases hl
      simp [hnil]
    | some b =>
      obtain ⟨hb, hmax⟩ := ih hl
      by_cases hab : f a < f b
      · simp only [hab, if_true]
        rintro rfl
        refine ⟨List.mem_append_left _ hb, fun c hc => ?_⟩
        obtain hc | hc := List.mem_append.mp hc
        · exact hmax c hc
        · rw [List.mem_singleton.mp hc]
          exact hab.le
      · simp only [hab, if_false]
        rintro rfl
        refine ⟨by simp, fun c hc => ?_⟩
        obtain hc | hc := List.mem_append.mp hc
        · exact (hmax c hc).trans (not_lt.mp hab)
        · rw [List.mem_singleton.mp hc]

theorem lastMax_isSome (h : l ≠ []) : ∃ r, lastMax f l = some r := by
  cases l using List.reverseRecOn with
  | nil => exact absurd rfl h
  | append_singleton l a => exact ⟨_, lastMax_concat l a⟩

/-- An element that no other exceeds is selected when it comes last. -/
theorem lastMax_last (h : ∀ c ∈ l, f c ≤ f a) : lastMax f (l ++ [a]) = some a := by
  rw [lastMax_concat, Option.some_inj]
  cases hl : lastMax f l with
  | none => rfl
  | some b => exact if_neg (not_lt.mpr (h b (lastMax_spec hl).1))

/-- Where one element alone has the greatest value, the order plays no part. -/
theorem lastMax_perm (h : l.Perm l')
    (hone : ∀ b ∈ l, ∀ c ∈ l, (∀ d ∈ l, f d ≤ f b) → (∀ d ∈ l, f d ≤ f c) → b = c) : lastMax f l = lastMax f l' := by
  by_cases hnil : l = []
  · subst hnil
    rw [List.nil_perm.mp h]
  · have hnil' : l' ≠ [] := fun h' => hnil (h' ▸ h).eq_nil
    obtain ⟨b, hb⟩ := lastMax_isSome (f := f) hnil
    obtain ⟨c, hc⟩ := lastMax_isSome (f := f) hnil'
    obtain ⟨hbl, hbmax⟩ := lastMax_spec hb
    obtain ⟨hcl, hcmax⟩ := lastMax_spec hc
    have heq := hone b hbl c (h.mem_iff.mpr hcl) hbmax fun d hd => hcmax d (h.mem_iff.mp hd)
    rw [hb, hc, heq]

end

end Ranking
