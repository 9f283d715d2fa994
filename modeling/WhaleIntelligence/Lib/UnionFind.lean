import Mathlib.Data.Fintype.Card
import Mathlib.Data.Fintype.EquivFin
import Mathlib.Logic.Relation

/- Union-find over parent pointers.

   An element climbs along its parents until it meets a root, an element that is
   its own parent. The pointers are a forest when every climb ends; the number of
   its steps is then fixed, and below the number of the elements (`Climbs.lt_card`).

   Two writes keep a forest. Pointing an element at its root changes no root at all
   (`RootOf.redirect`), which is path compression. Pointing one root at another
   merges two classes (`RootOf.link`), which is union. `Represents` says that the
   classes are those a relation generates, and what each write does to it. -/
namespace UnionFind
open Relation

variable {ι : Type} {parent : ι → ι} {x y z r s : ι} {j k : Nat}

/-- The climb from an element ends at a root after so many steps. -/
inductive Climbs (parent : ι → ι) : Nat → ι → ι → Prop
  | root {r : ι} (h : parent r = r) : Climbs parent 0 r r
  | step {k : Nat} {x r : ι} (h : parent x ≠ x) (hclimb : Climbs parent k (parent x) r) : Climbs parent (k + 1) x r

def RootOf (parent : ι → ι) (x r : ι) : Prop := ∃ k, Climbs parent k x r

/-- Every climb ends. -/
def Forest (parent : ι → ι) : Prop := ∀ x, ∃ r, RootOf parent x r

def Same (parent : ι → ι) (x y : ι) : Prop := ∃ r, RootOf parent x r ∧ RootOf parent y r

/-! ## Climbs -/

theorem Climbs.isRoot (h : Climbs parent k x r) : parent r = r := by
  induction h with
  | root h => exact h
  | step _ _ ih => exact ih

theorem Climbs.unique (h : Climbs parent k x r) : ∀ {j s}, Climbs parent j x s → k = j ∧ r = s := by
  induction h with
  | root h =>
    intro j s h'
    cases h' with
    | root => exact ⟨rfl, rfl⟩
    | step hne => exact absurd h hne
  | step hne _ ih =>
    intro j s h'
    cases h' with
    | root h => exact absurd h hne
    | step _ hrest =>
      have := ih hrest
      exact ⟨by omega, this.2⟩

/-- The elements of a climb are pairwise distinct: each has its own number of steps left. -/
theorem Climbs.path (h : Climbs parent k x r) :
    ∃ l : List ι, l.Nodup ∧ l.length = k + 1 ∧ ∀ y ∈ l, ∃ j ≤ k, Climbs parent j y r := by
  induction h with
  | @root r h =>
    refine ⟨[r], List.nodup_singleton r, rfl, ?_⟩
    intro y hy
    rw [List.mem_singleton] at hy
    subst hy
    exact ⟨0, Nat.le_refl 0, Climbs.root h⟩
  | @step k x r hne hclimb ih =>
    obtain ⟨l, hnodup, hlength, hmem⟩ := ih
    have hx : Climbs parent (k + 1) x r := Climbs.step hne hclimb
    have hnot : x ∉ l := by
      intro hin
      obtain ⟨j, hj, hy⟩ := hmem x hin
      have := (hx.unique hy).1
      omega
    refine ⟨x :: l, List.nodup_cons.mpr ⟨hnot, hnodup⟩, by simp [hlength], ?_⟩
    intro y hy
    rw [List.mem_cons] at hy
    obtain rfl | hy := hy
    · exact ⟨k + 1, Nat.le_refl _, hx⟩
    · obtain ⟨j, hj, hclimb⟩ := hmem y hy
      exact ⟨j, by omega, hclimb⟩

theorem Climbs.lt_card [Fintype ι] (h : Climbs parent k x r) : k < Fintype.card ι := by
  obtain ⟨l, hnodup, hlength, -⟩ := h.path
  have := hnodup.length_le_card
  omega

theorem RootOf.isRoot (h : RootOf parent x r) : parent r = r := by
  obtain ⟨k, hk⟩ := h
  exact hk.isRoot

theorem RootOf.unique (hr : RootOf parent x r) (hs : RootOf parent x s) : r = s := by
  obtain ⟨k, hk⟩ := hr
  obtain ⟨j, hj⟩ := hs
  exact (hk.unique hj).2

theorem rootOf_self (h : parent r = r) : RootOf parent r r := ⟨0, Climbs.root h⟩

theorem RootOf.step (h : parent x ≠ x) (hr : RootOf parent (parent x) r) : RootOf parent x r := by
  obtain ⟨k, hk⟩ := hr
  exact ⟨k + 1, Climbs.step h hk⟩

theorem rootOf_iff_of_isRoot (h : parent r = r) : RootOf parent r s ↔ s = r := by
  constructor
  · intro hs
    exact hs.unique (rootOf_self h)
  · rintro rfl
    exact rootOf_self h

/-! ## Writes -/

section
variable [DecidableEq ι]

/-- A climb does not see a write to an element that is further from a root. -/
theorem Climbs.update (hy : Climbs parent k y r) (hx : Climbs parent j x s) (hkj : k < j) (v : ι) :
    Climbs (Function.update parent x v) k y r := by
  induction hy with
  | @root r h =>
    have hrx : r ≠ x := by
      rintro rfl
      have := (hx.unique (Climbs.root h)).1
      omega
    apply Climbs.root
    rw [Function.update_of_ne hrx, h]
  | @step k y r hne hclimb ih =>
    have hyx : y ≠ x := by
      rintro rfl
      have := (hx.unique (Climbs.step hne hclimb)).1
      omega
    apply Climbs.step
    · rw [Function.update_of_ne hyx]
      exact hne
    · rw [Function.update_of_ne hyx]
      exact ih (by omega)

/-- Every element keeps its root when one is pointed at its own. -/
theorem RootOf.redirect (hx : RootOf parent x r) (hy : RootOf parent y s) :
    RootOf (Function.update parent x r) y s := by
  obtain ⟨k, hk⟩ := hy
  induction hk with
  | @root s h =>
    apply rootOf_self
    by_cases hsx : s = x
    · subst hsx
      rw [Function.update_self]
      exact (rootOf_iff_of_isRoot h).mp hx
    · rw [Function.update_of_ne hsx]
      exact h
  | @step k y s hne hclimb ih =>
    by_cases hyx : y = x
    · subst hyx
      have hrs : r = s := hx.unique ⟨k + 1, Climbs.step hne hclimb⟩
      have hroot : parent r = r := hx.isRoot
      have hry : r ≠ y := fun heq => hne (heq ▸ hroot)
      apply RootOf.step
      · rw [Function.update_self]
        exact hry
      · rw [Function.update_self, ← hrs]
        apply rootOf_self
        rw [Function.update_of_ne hry]
        exact hroot
    · apply RootOf.step
      · rw [Function.update_of_ne hyx]
        exact hne
      · rw [Function.update_of_ne hyx]
        exact ih

/-- A root that is pointed at another root takes its class with it. -/
theorem RootOf.link {a b : ι} (ha : parent a = a) (hb : parent b = b) (hab : a ≠ b) (hy : RootOf parent y s) :
    RootOf (Function.update parent b a) y (if s = b then a else s) := by
  obtain ⟨k, hk⟩ := hy
  have hroot : Function.update parent b a a = a := by rw [Function.update_of_ne hab, ha]
  induction hk with
  | @root s h =>
    by_cases hsb : s = b
    · subst hsb
      rw [if_pos rfl]
      apply RootOf.step
      · rw [Function.update_self]
        exact hab
      · rw [Function.update_self]
        exact rootOf_self hroot
    · rw [if_neg hsb]
      apply rootOf_self
      rw [Function.update_of_ne hsb, h]
  | @step k y s hne _ ih =>
    have hyb : y ≠ b := fun heq => hne (heq ▸ hb)
    apply RootOf.step
    · rw [Function.update_of_ne hyb]
      exact hne
    · rw [Function.update_of_ne hyb]
      exact ih

end

/-! ## Classes -/

theorem Same.symm (h : Same parent x y) : Same parent y x := by
  obtain ⟨r, hx, hy⟩ := h
  exact ⟨r, hy, hx⟩

theorem Same.trans (hxy : Same parent x y) (hyz : Same parent y z) : Same parent x z := by
  obtain ⟨r, hx, hy⟩ := hxy
  obtain ⟨s, hy', hz⟩ := hyz
  obtain rfl := hy.unique hy'
  exact ⟨r, hx, hz⟩

theorem Same.eq (h : Same parent x y) (hx : RootOf parent x r) (hy : RootOf parent y s) : r = s := by
  obtain ⟨t, hx', hy'⟩ := h
  rw [hx.unique hx', hy.unique hy']

/-- The pointers are a forest, and its classes are those that the relation generates. -/
structure Represents (parent : ι → ι) (R : ι → ι → Prop) : Prop where
  forest : Forest parent
  same_iff : ∀ x y, Same parent x y ↔ EqvGen R x y

variable {R S : ι → ι → Prop}

theorem represents_id : Represents (id : ι → ι) fun _ _ => False where
  forest x := ⟨x, rootOf_self rfl⟩
  same_iff x y := by
    constructor
    · intro h
      have heq : x = y := h.eq (rootOf_self rfl) (rootOf_self rfl)
      exact heq ▸ EqvGen.refl x
    · intro h
      induction h with
      | rel _ _ h => exact h.elim
      | refl x => exact ⟨x, rootOf_self rfl, rootOf_self rfl⟩
      | symm _ _ _ ih => exact ih.symm
      | trans _ _ _ _ _ hxy hyz => exact hxy.trans hyz

theorem Represents.congr (h : Represents parent R) (hRS : ∀ x y, EqvGen R x y ↔ EqvGen S x y) :
    Represents parent S :=
  ⟨h.forest, fun x y => (h.same_iff x y).trans (hRS x y)⟩

/-- Pointers with the same roots represent the same relation. -/
theorem Represents.of_roots {parent' : ι → ι} (h : Represents parent R)
    (hroots : ∀ y s, RootOf parent y s → RootOf parent' y s) : Represents parent' R where
  forest x := by
    obtain ⟨r, hr⟩ := h.forest x
    exact ⟨r, hroots x r hr⟩
  same_iff x y := by
    rw [← h.same_iff]
    obtain ⟨r, hr⟩ := h.forest x
    obtain ⟨s, hs⟩ := h.forest y
    constructor
    · intro hsame
      have heq : r = s := hsame.eq (hroots x r hr) (hroots y s hs)
      exact ⟨r, hr, heq ▸ hs⟩
    · rintro ⟨t, hx, hy⟩
      exact ⟨t, hroots x t hx, hroots y t hy⟩

/-- A pair that is related already adds nothing. -/
theorem Represents.skip {a b : ι} (h : Represents parent R) (hab : Same parent a b) :
    Represents parent fun x y => R x y ∨ (x = a ∧ y = b) := by
  apply h.congr
  intro x y
  constructor
  · exact EqvGen.mono (fun _ _ hR => Or.inl hR) x y
  · intro hxy
    induction hxy with
    | rel x y hxy =>
      obtain hR | ⟨rfl, rfl⟩ := hxy
      · exact EqvGen.rel x y hR
      · exact (h.same_iff x y).mp hab
    | refl x => exact EqvGen.refl x
    | symm x y _ ih => exact EqvGen.symm x y ih
    | trans x y z _ _ hxy hyz => exact EqvGen.trans x y z hxy hyz

section
variable [DecidableEq ι] {a b ra rb : ι}

/-- What has one root behind a link was related before it, or by way of the linked elements. -/
theorem Represents.related_of_link (h : Represents parent R) (ha : RootOf parent a ra) (hb : RootOf parent b rb)
    (hne : ra ≠ rb) {x y : ι} (hsame : Same (Function.update parent rb ra) x y) :
    EqvGen (fun x y => R x y ∨ (x = a ∧ y = b)) x y := by
  have hab : EqvGen (fun x y => R x y ∨ (x = a ∧ y = b)) a b := EqvGen.rel a b (Or.inr ⟨rfl, rfl⟩)
  have hold : ∀ {x y r}, RootOf parent x r → RootOf parent y r → EqvGen (fun x y => R x y ∨ (x = a ∧ y = b)) x y :=
    fun hx hy => EqvGen.mono (fun _ _ hR => Or.inl hR) _ _ ((h.same_iff _ _).mp ⟨_, hx, hy⟩)
  obtain ⟨r, hr⟩ := h.forest x
  obtain ⟨s, hs⟩ := h.forest y
  have heq := hsame.eq (hr.link ha.isRoot hb.isRoot hne) (hs.link ha.isRoot hb.isRoot hne)
  by_cases hrb : r = rb
  · subst hrb
    rw [if_pos rfl] at heq
    by_cases hsb : s = r
    · subst hsb
      exact hold hr hs
    · -- `x` was with `b`, and `y` is with `a`
      rw [if_neg hsb] at heq
      subst heq
      exact EqvGen.trans _ _ _ (hold hr hb) (EqvGen.trans _ _ _ (EqvGen.symm _ _ hab) (hold ha hs))
  · rw [if_neg hrb] at heq
    by_cases hsb : s = rb
    · rw [if_pos hsb] at heq
      subst heq hsb
      exact EqvGen.trans _ _ _ (hold hr ha) (EqvGen.trans _ _ _ hab (hold hb hs))
    · rw [if_neg hsb] at heq
      subst heq
      exact hold hr hs

theorem Represents.same_link (h : Represents parent R) (ha : RootOf parent a ra) (hb : RootOf parent b rb)
    (hne : ra ≠ rb) {x y : ι} (hxy : EqvGen (fun x y => R x y ∨ (x = a ∧ y = b)) x y) :
    Same (Function.update parent rb ra) x y := by
  have hlink : ∀ {y s}, RootOf parent y s → RootOf (Function.update parent rb ra) y (if s = rb then ra else s) :=
    fun hy => hy.link ha.isRoot hb.isRoot hne
  induction hxy with
  | rel x y hxy =>
    obtain hR | ⟨rfl, rfl⟩ := hxy
    · obtain ⟨t, hx, hy⟩ := (h.same_iff x y).mpr (EqvGen.rel x y hR)
      exact ⟨_, hlink hx, hlink hy⟩
    · have hlinked := hlink ha
      rw [if_neg hne] at hlinked
      have hlinked' := hlink hb
      rw [if_pos rfl] at hlinked'
      exact ⟨ra, hlinked, hlinked'⟩
  | refl x =>
    obtain ⟨r, hr⟩ := h.forest x
    exact ⟨_, hlink hr, hlink hr⟩
  | symm _ _ _ ih => exact ih.symm
  | trans _ _ _ _ _ hxy hyz => exact hxy.trans hyz

/-- Linking the roots of two elements relates the elements. -/
theorem Represents.link (h : Represents parent R) (ha : RootOf parent a ra) (hb : RootOf parent b rb)
    (hne : ra ≠ rb) : Represents (Function.update parent rb ra) fun x y => R x y ∨ (x = a ∧ y = b) where
  forest x := by
    obtain ⟨r, hr⟩ := h.forest x
    exact ⟨_, hr.link ha.isRoot hb.isRoot hne⟩
  same_iff _ _ := ⟨h.related_of_link ha hb hne, h.same_link ha hb hne⟩

end

end UnionFind
