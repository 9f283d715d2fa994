import Mathlib.Logic.Relation
import WhaleIntelligence.Lib.Runs

/- Clusters that grow by merging.

   A clustering says which clusters an element is in. A merge takes a set of
   elements, adds all that share a cluster with one of them, and puts the lot in one
   cluster; every other element stays where it is. A step merges the star of one
   element: the element with its neighbours along symmetric edges.

   Each step sees one star, yet the whole comes out right: clusters stay inside the
   connected components, elements that share a cluster share one for ever
   (`run_keeps`), and once every element with an edge has had its step the clusters
   are the components (`run_exact`), whatever the order and the repetitions. -/
namespace Clusters
open Relation Runs

section
variable {α κ : Type}

abbrev Clustering (α κ : Type) := α → κ → Prop

/-- No element is in two clusters. -/
def Single (A : Clustering α κ) : Prop := ∀ x j k, A x j → A x k → j = k

def Share (A : Clustering α κ) (x y : α) : Prop := ∃ k, A x k ∧ A y k

/-- What a merge of the set puts together. -/
def Gathered (A : Clustering α κ) (M : α → Prop) (x : α) : Prop := M x ∨ ∃ m, M m ∧ Share A m x

/-- `B` is `A` with the set merged into the cluster `k`, which holds nothing else. -/
structure Merged (A : Clustering α κ) (M : α → Prop) (k : κ) (B : Clustering α κ) : Prop where
  mem_iff : ∀ x j, B x j ↔ (Gathered A M x ∧ j = k) ∨ (¬ Gathered A M x ∧ A x j)
  apart : ∀ x, A x k → Gathered A M x

variable {A B C : Clustering α κ} {M : α → Prop} {k : κ} {x y z w : α}

theorem Share.symm (h : Share A x y) : Share A y x := by
  obtain ⟨j, hx, hy⟩ := h
  exact ⟨j, hy, hx⟩

theorem Share.trans (hA : Single A) (hxy : Share A x y) (hyz : Share A y z) : Share A x z := by
  obtain ⟨i, hx, hy⟩ := hxy
  obtain ⟨j, hy', hz⟩ := hyz
  obtain rfl := hA y i j hy hy'
  exact ⟨i, hx, hz⟩

/-- A cluster is gathered as a whole. -/
theorem Gathered.of_share (hA : Single A) (hx : Gathered A M x) (h : Share A x y) : Gathered A M y := by
  cases hx with
  | inl hM => exact Or.inr ⟨x, hM, h⟩
  | inr hm =>
    obtain ⟨m, hM, hmx⟩ := hm
    exact Or.inr ⟨m, hM, hmx.trans hA h⟩

/-! ## One merge -/

theorem Merged.single (hA : Single A) (h : Merged A M k B) : Single B := by
  intro x i j hi hj
  rw [h.mem_iff] at hi hj
  obtain hi | hi := hi
  · obtain hj | hj := hj
    · rw [hi.2, hj.2]
    · exact absurd hi.1 hj.1
  · obtain hj | hj := hj
    · exact absurd hj.1 hi.1
    · exact hA x i j hi.2 hj.2

/-- After a merge two elements share a cluster that did before, or both were gathered. -/
theorem Merged.share (h : Merged A M k B) (hxy : Share B x y) :
    Share A x y ∨ (Gathered A M x ∧ Gathered A M y) := by
  obtain ⟨j, hx, hy⟩ := hxy
  rw [h.mem_iff] at hx hy
  obtain hx | hx := hx
  · obtain hy | hy := hy
    · exact Or.inr ⟨hx.1, hy.1⟩
    · -- `y` was in the cluster merged into, so it was gathered
      rw [hx.2] at hy
      exact absurd (h.apart y hy.2) hy.1
  · obtain hy | hy := hy
    · rw [hy.2] at hx
      exact absurd (h.apart x hx.2) hx.1
    · exact Or.inl ⟨j, hx.2, hy.2⟩

theorem Merged.joins (h : Merged A M k B) (hx : Gathered A M x) (hy : Gathered A M y) : Share B x y :=
  ⟨k, (h.mem_iff x k).mpr (Or.inl ⟨hx, rfl⟩), (h.mem_iff y k).mpr (Or.inl ⟨hy, rfl⟩)⟩

theorem Merged.keeps (hA : Single A) (h : Merged A M k B) (hxy : Share A x y) : Share B x y := by
  by_cases hx : Gathered A M x
  · exact h.joins hx (hx.of_share hA hxy)
  · have hy : ¬ Gathered A M y := fun hy => hx (hy.of_share hA hxy.symm)
    obtain ⟨j, hxj, hyj⟩ := hxy
    exact ⟨j, (h.mem_iff x j).mpr (Or.inr ⟨hx, hxj⟩), (h.mem_iff y j).mpr (Or.inr ⟨hy, hyj⟩)⟩

/-! ## Runs of star merges -/

variable {E : α → α → Prop}

def StarOf (E : α → α → Prop) (w x : α) : Prop := x = w ∨ E w x

/-- The star of an element with an edge is merged; an element without one has no step to make. -/
def Step (E : α → α → Prop) (A : Clustering α κ) (w : α) (B : Clustering α κ) : Prop :=
  ((∃ y, E w y) ∧ ∃ k, Merged A (StarOf E w) k B) ∨ ((¬ ∃ y, E w y) ∧ B = A)

/-- The clusters lie inside the connected components. -/
def Within (E : α → α → Prop) (A : Clustering α κ) : Prop := ∀ x y, Share A x y → TransGen E x y

theorem Step.single (hA : Single A) (h : Step E A w B) : Single B := by
  obtain ⟨-, k, hm⟩ | ⟨-, rfl⟩ := h
  · exact hm.single hA
  · exact hA

theorem Step.keeps (hA : Single A) (h : Step E A w B) (hxy : Share A x y) : Share B x y := by
  obtain ⟨-, k, hm⟩ | ⟨-, rfl⟩ := h
  · exact hm.keeps hA hxy
  · exact hxy

theorem Step.joins (h : Step E A w B) (hwy : E w y) : Share B w y := by
  obtain ⟨-, k, hm⟩ | ⟨hno, -⟩ := h
  · exact hm.joins (Or.inl (Or.inl rfl)) (Or.inl (Or.inr hwy))
  · exact absurd ⟨y, hwy⟩ hno

variable [Std.Symm E]

theorem star_connected (hw : ∃ y, E w y) (hx : StarOf E w x) : TransGen E w x := by
  cases hx with
  | inl heq =>
    -- out along an edge and back again
    obtain ⟨y, hy⟩ := hw
    rw [heq]
    exact (TransGen.single hy).tail (Std.Symm.symm _ _ hy)
  | inr hedge => exact TransGen.single hedge

theorem gathered_connected (hA : Within E A) (hw : ∃ y, E w y) (hx : Gathered A (StarOf E w) x) :
    TransGen E w x := by
  cases hx with
  | inl hstar => exact star_connected hw hstar
  | inr hm =>
    obtain ⟨m, hstar, hmx⟩ := hm
    exact (star_connected hw hstar).trans (hA m x hmx)

theorem Step.within (hA : Within E A) (h : Step E A w B) : Within E B := by
  obtain ⟨hw, k, hm⟩ | ⟨-, rfl⟩ := h
  · intro x y hxy
    obtain hold | ⟨hx, hy⟩ := hm.share hxy
    · exact hA x y hold
    · have hxw : TransGen E x w := Std.Symm.symm _ _ (gathered_connected hA hw hx)
      exact hxw.trans (gathered_connected hA hw hy)
  · exact hA

/-- What holds of the clustering after the steps of the list. -/
structure Progress (E : α → α → Prop) (ws : List α) (A : Clustering α κ) : Prop where
  single : Single A
  within : Within E A
  joined : ∀ w ∈ ws, ∀ y, E w y → Share A w y

theorem run_progress {ws : List α} (hA : ∀ x k, ¬ A x k) (h : Run (Step E) A ws B) : Progress E ws B := by
  show Progress E ([] ++ ws) B
  apply Run.history (I := Progress E) h
  · exact ⟨fun x j k hj _ => absurd hj (hA x j), fun x y hxy => absurd hxy.choose_spec.1 (hA x _),
      fun w hw => absurd hw List.not_mem_nil⟩
  · intro es A w B hI hstep
    refine ⟨hstep.single hI.single, hstep.within hI.within, ?_⟩
    intro v hv y hvy
    cases List.mem_append.mp hv with
    | inl hes => exact hstep.keeps hI.single (hI.joined v hes y hvy)
    | inr hlast =>
      rw [List.mem_singleton.mp hlast] at hvy ⊢
      exact hstep.joins hvy

omit [Std.Symm E] in
theorem run_keeps {ws : List α} (hA : Single A) (h : Run (Step E) A ws B) (hxy : Share A x y) : Share B x y := by
  have hkeep := Run.invariant (I := fun C => Single C ∧ Share C x y) h ⟨hA, hxy⟩
    fun C w D hC hstep => ⟨hstep.single hC.1, hstep.keeps hC.1 hC.2⟩
  exact hkeep.2

/-- Once every element with an edge has had its step, the clusters are the components. -/
theorem run_exact {ws : List α} (hA : ∀ x k, ¬ A x k) (h : Run (Step E) A ws B)
    (hall : ∀ w y, E w y → w ∈ ws) : Share B x y ↔ TransGen E x y := by
  have hB := run_progress hA h
  refine ⟨hB.within x y, fun hpath => ?_⟩
  induction hpath with
  | single hedge => exact hB.joined x (hall _ _ hedge) _ hedge
  | tail _ hedge ih => exact ih.trans hB.single (hB.joined _ (hall _ _ hedge) _ hedge)

end

end Clusters
