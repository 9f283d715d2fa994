import Mathlib.Data.List.Dedup
import Mathlib.Data.List.Perm.Subperm
import Mathlib.Data.List.Sort
import Mathlib.Order.Defs.LinearOrder

/- Queries over lists of rows whose order says nothing.

   Counting, `DISTINCT` and the least value of a column do not depend on the order
   of the rows. The latest row does not either where no two rows share a time
   (`latest_perm`). An extreme value is a value of the column that bounds the others
   (`least_spec`, `greatest_spec`, `latest_spec`). -/
namespace Query

/-- Rows that agree where a condition holds agree where a narrower one does. -/
theorem filter_perm_of_imp {α : Type} {rows rows' : List α} {p q : α → Bool}
    (h : (rows.filter q).Perm (rows'.filter q)) (hp : ∀ a, p a = true → q a = true) :
    (rows.filter p).Perm (rows'.filter p) := by
  have hnarrow : ∀ l : List α, (l.filter q).filter p = l.filter p := by
    intro l
    rw [List.filter_filter]
    refine List.filter_congr fun a _ => ?_
    cases ha : p a with
    | false => rfl
    | true => rw [hp a ha]; rfl
  rw [← hnarrow rows, ← hnarrow rows']
  exact h.filter p

/-- The row under a unique key is the only row under it. -/
theorem filter_unique {α β : Type} [DecidableEq β] {rows : List α} {key : α → β} {a : α}
    (h : (rows.map key).Nodup) (ha : a ∈ rows) : rows.filter (fun b => key b = key a) = [a] := by
  induction rows with
  | nil => cases ha
  | cons b rows ih =>
    rw [List.map_cons, List.nodup_cons] at h
    obtain ⟨hb, hrows⟩ := h
    rcases List.mem_cons.mp ha with rfl | ha
    · rw [List.filter_cons_of_pos (by simp), List.filter_eq_nil_iff.mpr]
      intro c hc heq
      apply hb
      rw [← of_decide_eq_true heq]
      exact List.mem_map_of_mem hc
    · have hne : key b ≠ key a := fun heq => hb (heq ▸ List.mem_map_of_mem ha)
      rw [List.filter_cons_of_neg (by simpa using hne)]
      exact ih hrows ha

section
variable {α β : Type} [DecidableEq β]

/-- `SELECT DISTINCT column`. -/
def distinct (column : α → β) (rows : List α) : List β := (rows.map column).dedup

/-- `COUNT(DISTINCT column)`. -/
def countDistinct (column : α → β) (rows : List α) : Nat := (distinct column rows).length

variable {column : α → β} {rows rows' : List α}

theorem mem_distinct {b : β} : b ∈ distinct column rows ↔ ∃ a ∈ rows, column a = b := by
  rw [distinct, List.mem_dedup, List.mem_map]

theorem distinct_nodup (column : α → β) (rows : List α) : (distinct column rows).Nodup := List.nodup_dedup _

theorem distinct_perm (h : rows.Perm rows') : (distinct column rows).Perm (distinct column rows') :=
  (h.map column).dedup

theorem countDistinct_perm (h : rows.Perm rows') : countDistinct column rows = countDistinct column rows' :=
  (distinct_perm h).length_eq

/-- What is drawn from a set without repetition is no more than the set. -/
theorem length_distinct_le {set : List β} (h : ∀ a ∈ rows, column a ∈ set) :
    (distinct column rows).length ≤ set.length := by
  have hsub : distinct column rows ⊆ set := by
    intro b hb
    obtain ⟨a, ha, rfl⟩ := mem_distinct.mp hb
    exact h a ha
  exact (List.subperm_of_subset (distinct_nodup column rows) hsub).length_le

end

section
variable {α : Type} {r : α → α → Prop} [DecidableRel r] [Std.Total r] [IsTrans α r] {l : List α} {a : α}

/-- The first of a sorted list is one of its members, and comes before the others. -/
theorem head?_sorted (h : (l.insertionSort r).head? = some a) : a ∈ l ∧ ∀ b ∈ l, b = a ∨ r a b := by
  have hsorted := List.pairwise_insertionSort r l
  have hmem : ∀ b, b ∈ l.insertionSort r ↔ b ∈ l := fun b => List.mem_insertionSort r
  cases hs : l.insertionSort r with
  | nil => rw [hs] at h; cases h
  | cons first rest =>
    rw [hs] at h hsorted
    obtain rfl : first = a := by simpa using h
    refine ⟨(hmem first).mp (hs ▸ List.mem_cons_self), fun b hb => ?_⟩
    have hb' := (hmem b).mpr hb
    rw [hs] at hb'
    cases List.mem_cons.mp hb' with
    | inl heq => exact Or.inl heq
    | inr hrest => exact Or.inr ((List.pairwise_cons.mp hsorted).1 b hrest)

omit [Std.Total r] [IsTrans α r] in
theorem head?_sorted_isSome (h : l ≠ []) : ∃ a, (l.insertionSort r).head? = some a := by
  have hlen : (l.insertionSort r).length = l.length := List.length_insertionSort r l
  cases hs : l.insertionSort r with
  | nil =>
    rw [hs] at hlen
    exact absurd (List.length_eq_zero_iff.mp hlen.symm) h
  | cons a rest => exact ⟨a, rfl⟩

end

section
variable {α : Type} {τ : Type} [LinearOrder τ]

/-- The greatest value of a column. -/
def greatest (column : α → τ) (rows : List α) : Option τ := ((rows.map column).insertionSort (· ≥ ·)).head?

/-- The least value of a column. -/
def least (column : α → τ) (rows : List α) : Option τ := ((rows.map column).insertionSort (· ≤ ·)).head?

/-- `ORDER BY time DESC LIMIT 1`. -/
def latest (time : α → τ) (rows : List α) : Option α := (rows.insertionSort fun a b => time b ≤ time a).head?

variable {time column : α → τ} {rows rows' : List α}

theorem sorted_least (l : List τ) : (l.insertionSort (· ≤ ·)).Pairwise (· ≤ ·) := List.pairwise_insertionSort _ _

theorem least_perm (h : rows.Perm rows') : least column rows = least column rows' := by
  have hperm : ((rows.map column).insertionSort (· ≤ ·)).Perm ((rows'.map column).insertionSort (· ≤ ·)) :=
    ((List.perm_insertionSort _ _).trans (h.map column)).trans (List.perm_insertionSort _ _).symm
  rw [least, least]
  congr 1
  exact List.Perm.eq_of_pairwise (fun a b _ _ hab hba => le_antisymm hab hba) (sorted_least _) (sorted_least _) hperm

theorem sorted_latest (time : α → τ) (rows : List α) :
    (rows.insertionSort fun a b => time b ≤ time a).Pairwise fun a b => time b ≤ time a := by
  have : Std.Total fun a b : α => time b ≤ time a := ⟨fun a b => le_total _ _⟩
  have : IsTrans α fun a b => time b ≤ time a := ⟨fun _ _ _ h h' => h'.trans h⟩
  exact List.pairwise_insertionSort _ _

/-- Where no two rows share a time the latest row does not depend on the order. -/
theorem latest_perm (h : rows.Perm rows') (hd : (rows.map time).Nodup) : latest time rows = latest time rows' := by
  have hperm : (rows.insertionSort fun a b => time b ≤ time a).Perm
      (rows'.insertionSort fun a b => time b ≤ time a) :=
    ((List.perm_insertionSort _ rows).trans h).trans (List.perm_insertionSort _ rows').symm
  rw [latest, latest]
  congr 1
  apply List.Perm.eq_of_pairwise _ (sorted_latest time rows) (sorted_latest time rows') hperm
  intro a b ha hb hab hba
  have ha : a ∈ rows := (List.mem_insertionSort _).mp ha
  have hb : b ∈ rows := h.mem_iff.mpr ((List.mem_insertionSort _).mp hb)
  exact List.inj_on_of_nodup_map hd ha hb (le_antisymm hba hab)

theorem least_isSome (column : α → τ) (h : rows ≠ []) : ∃ v, least column rows = some v :=
  head?_sorted_isSome (mt List.map_eq_nil_iff.mp h)

theorem greatest_isSome (column : α → τ) (h : rows ≠ []) : ∃ v, greatest column rows = some v :=
  head?_sorted_isSome (mt List.map_eq_nil_iff.mp h)

theorem latest_isSome (time : α → τ) (h : rows ≠ []) : ∃ a, latest time rows = some a := head?_sorted_isSome h

theorem least_spec {v : τ} (h : least column rows = some v) :
    (∃ a ∈ rows, column a = v) ∧ ∀ a ∈ rows, v ≤ column a := by
  obtain ⟨hmem, hle⟩ := head?_sorted h
  refine ⟨List.mem_map.mp hmem, fun a ha => ?_⟩
  obtain heq | hlt := hle _ (List.mem_map_of_mem ha)
  · exact heq.ge
  · exact hlt

theorem greatest_spec {v : τ} (h : greatest column rows = some v) :
    (∃ a ∈ rows, column a = v) ∧ ∀ a ∈ rows, column a ≤ v := by
  obtain ⟨hmem, hle⟩ := head?_sorted h
  refine ⟨List.mem_map.mp hmem, fun a ha => ?_⟩
  obtain heq | hlt := hle _ (List.mem_map_of_mem ha)
  · exact heq.le
  · exact hlt

theorem latest_spec {a : α} (h : latest time rows = some a) : a ∈ rows ∧ ∀ b ∈ rows, time b ≤ time a := by
  have : Std.Total fun a b : α => time b ≤ time a := ⟨fun a b => le_total _ _⟩
  have : IsTrans α fun a b => time b ≤ time a := ⟨fun _ _ _ h h' => h'.trans h⟩
  obtain ⟨hmem, hle⟩ := head?_sorted h
  refine ⟨hmem, fun b hb => ?_⟩
  obtain rfl | hlt := hle b hb
  · exact le_refl _
  · exact hlt

end

end Query
