import Mathlib.Data.Set.Finite.List
import Mathlib.Logic.Relation
import Mathlib.Order.WellFounded

/- Ways up in a graph where a node has at most one parent.

   `EndsAt` is a way up that ends at a node without a parent, with its length. It is
   unique, and a node on a cycle has none. Where only finitely many nodes have a
   parent and none is its own ancestor, every way up ends (`endsAt_of_acyclic`). -/
namespace Ancestry
open Relation

section
variable {κ : Type} {parent : κ → Option κ}

/-- `b` is the parent of `a`. -/
def Up (parent : κ → Option κ) (a b : κ) : Prop := parent a = some b

/-- No node is its own ancestor. -/
def Acyclic (parent : κ → Option κ) : Prop := ∀ a, ¬ TransGen (Up parent) a a

/-- The way up from a node ends at another after so many steps. -/
inductive EndsAt (parent : κ → Option κ) : κ → κ → Nat → Prop
  | root {a : κ} (h : parent a = none) : EndsAt parent a a 0
  | up {a b r : κ} {n : Nat} (h : parent a = some b) (hb : EndsAt parent b r n) : EndsAt parent a r (n + 1)

variable {a b r r' : κ} {n m : Nat}

theorem EndsAt.no_parent (h : EndsAt parent a r n) : parent r = none := by
  induction h with
  | root h => exact h
  | up h hb ih => exact ih

theorem EndsAt.reaches (h : EndsAt parent a r n) : ReflTransGen (Up parent) a r := by
  induction h with
  | root h => exact ReflTransGen.refl
  | up h hb ih => exact ReflTransGen.head h ih

/-- A node on a cycle has no way up that ends. -/
theorem EndsAt.not_cycle (h : EndsAt parent a r n) : ¬ TransGen (Up parent) a a := by
  intro hcycle
  -- from every node that the way up meets, the cycle leads back to its start
  have hback : ∀ b, ReflTransGen (Up parent) a b → ∃ c, Up parent b c ∧ ReflTransGen (Up parent) c a := by
    intro b hab
    induction hab with
    | refl => exact TransGen.head'_iff.mp hcycle
    | tail hab hbc ih =>
      obtain ⟨d, hd, hda⟩ := ih
      rw [Up] at hbc hd
      rw [hbc, Option.some.injEq] at hd
      subst hd
      obtain heq | hstep := ReflTransGen.cases_head hda
      · rw [heq]
        exact TransGen.head'_iff.mp hcycle
      · exact hstep
  obtain ⟨c, hc, -⟩ := hback r h.reaches
  rw [Up, h.no_parent] at hc
  cases hc

/-- Where finitely many nodes have a parent and there is no cycle, every way up ends. -/
theorem endsAt_of_acyclic {keys : List κ} (hkeys : ∀ a b, parent a = some b → a ∈ keys) (hacyclic : Acyclic parent)
    (a : κ) : ∃ r n, EndsAt parent a r n := by
  have hfinite : Finite {k // k ∈ keys} := (List.finite_toSet keys).to_subtype
  have htrans : IsTrans {k // k ∈ keys} fun b a => TransGen (Up parent) a.1 b.1 :=
    ⟨fun _ _ _ hab hbc => hbc.trans hab⟩
  have hirrefl : Std.Irrefl fun b a : {k // k ∈ keys} => TransGen (Up parent) a.1 b.1 := ⟨fun a h => hacyclic a.1 h⟩
  have hwf := Finite.wellFounded_of_trans_of_irrefl fun b a : {k // k ∈ keys} => TransGen (Up parent) a.1 b.1
  have hkey : ∀ k : {k // k ∈ keys}, ∃ r n, EndsAt parent k.1 r n := by
    intro k
    induction k using hwf.induction with
    | _ k ih =>
      cases hup : parent k.1 with
      | none => exact ⟨k.1, 0, EndsAt.root hup⟩
      | some b =>
        cases hb : parent b with
        | none => exact ⟨b, 1, EndsAt.up hup (EndsAt.root hb)⟩
        | some c =>
          obtain ⟨r, n, hr⟩ := ih ⟨b, hkeys b c hb⟩ (TransGen.single hup)
          exact ⟨r, n + 1, EndsAt.up hup hr⟩
  cases hup : parent a with
  | none => exact ⟨a, 0, EndsAt.root hup⟩
  | some b => exact hkey ⟨a, hkeys a b hup⟩

end

end Ancestry
