import WhaleIntelligence.Lib.Query

/- Tables that are read as of a time.

   Each row has a time, and a reading as of a time takes the latest of the rows up to it
   (`asOf`). Rows of later times come, and the rows before a cutoff go, all at once. Then
   a reading finds the row that it found, or nothing if a cutoff has passed that row
   (`asOf_run`): an older row never takes its place. Where no two of the rows that it could
   find share a time, the order of the table makes no difference (`asOf_perm`). -/
namespace Temporal
open Query

/-! ## The latest row -/

section
variable {α : Type} {r : α → α → Prop} [DecidableRel r] [IsTrans α r] {l : List α} {a : α} {p : α → Bool}

omit [IsTrans α r] in
theorem orderedInsert_least (h : ∀ b ∈ l, r a b) : l.orderedInsert r a = a :: l := by
  cases l with
  | nil => rfl
  | cons b l => exact List.orderedInsert_cons_of_le r l (h b List.mem_cons_self)

/-- What a filter drops does not matter for where an element is put. -/
theorem filter_orderedInsert (hl : l.Pairwise r) :
    (l.orderedInsert r a).filter p = if p a then (l.filter p).orderedInsert r a else l.filter p := by
  induction l with
  | nil => cases hp : p a <;> simp [hp]
  | cons b l ih =>
    obtain ⟨hb, hl⟩ := List.pairwise_cons.mp hl
    by_cases hab : r a b
    · -- the element comes first, and it does so in the filtered list as well
      have hall : ∀ c ∈ (b :: l).filter p, r a c := by
        intro c hc
        rcases List.mem_cons.mp (List.mem_of_mem_filter hc) with rfl | hc
        · exact hab
        · exact IsTrans.trans a b c hab (hb c hc)
      rw [List.orderedInsert_cons_of_le r l hab, orderedInsert_least hall, List.filter_cons]
    · rw [List.orderedInsert_of_not_le r l hab, List.filter_cons, ih hl, List.filter_cons]
      cases p a <;> cases p b <;> simp [hab]

theorem insertionSort_filter [Std.Total r] : (l.filter p).insertionSort r = (l.insertionSort r).filter p := by
  induction l with
  | nil => rfl
  | cons b l ih =>
    rw [List.insertionSort_cons, filter_orderedInsert (List.pairwise_insertionSort r l), ← ih, List.filter_cons]
    cases p b <;> rfl

end

/-- Where no two rows share a time their order by time does not depend on the order of the table. -/
theorem insertionSort_perm {ρ τ : Type} [LinearOrder τ] {time : ρ → τ} {rows rows' : List ρ} (h : rows.Perm rows')
    (hd : (rows.map time).Nodup) : (rows.insertionSort fun a b => time a ≤ time b) =
      rows'.insertionSort fun a b => time a ≤ time b := by
  have : Std.Total fun a b : ρ => time a ≤ time b := ⟨fun a b => le_total _ _⟩
  have : IsTrans ρ fun a b => time a ≤ time b := ⟨fun _ _ _ h h' => h.trans h'⟩
  have hperm := ((List.perm_insertionSort (fun a b => time a ≤ time b) rows).trans h).trans
    (List.perm_insertionSort (fun a b => time a ≤ time b) rows').symm
  apply List.Perm.eq_of_pairwise _ (List.pairwise_insertionSort _ _) (List.pairwise_insertionSort _ _) hperm
  intro a b ha hb hab hba
  have ha : a ∈ rows := (List.mem_insertionSort _).mp ha
  have hb : b ∈ rows := h.mem_iff.mpr ((List.mem_insertionSort _).mp hb)
  exact List.inj_on_of_nodup_map hd ha hb (le_antisymm hab hba)

/-! ## The rows of a first time -/

section
variable {α : Type} {l : List α} {p q : α → Bool}

/-- What holds of the rows before one that it holds of holds of the first rows. -/
theorem filter_eq_takeWhile (h : l.Pairwise fun a b => p b = true → p a = true) : l.filter p = l.takeWhile p := by
  induction l with
  | nil => rfl
  | cons a l ih =>
    obtain ⟨ha, hl⟩ := List.pairwise_cons.mp h
    cases hp : p a with
    | true => rw [List.filter_cons_of_pos hp, List.takeWhile_cons_of_pos hp, ih hl]
    | false =>
      rw [List.takeWhile_cons_of_neg (by simp [hp]), List.filter_eq_nil_iff]
      intro b hb hpb
      rcases List.mem_cons.mp hb with rfl | hb
      · simp [hp] at hpb
      · simp [hp] at ha
        exact absurd hpb (by simp [ha b hb])

theorem filter_take (h : l.Pairwise fun a b => p b = true → p a = true) (n : Nat) :
    (l.take n).filter p = (l.filter p).take n := by
  rw [filter_eq_takeWhile (h.sublist (List.take_sublist n l)), filter_eq_takeWhile h, List.take_takeWhile]

/-- A shorter time has a prefix of the rows of a longer one. -/
theorem filter_narrower (h : l.Pairwise fun a b => p b = true → p a = true) (hpq : ∀ a, p a = true → q a = true) :
    l.filter p <+: l.filter q := by
  have hnarrow : l.filter p = (l.filter q).filter p := by
    rw [List.filter_filter]
    apply List.filter_congr
    intro a _
    cases hp : p a with
    | true => simp [hpq a hp]
    | false => simp
  rw [hnarrow, filter_eq_takeWhile (h.sublist List.filter_sublist)]
  exact List.takeWhile_prefix p

end

/-! ## Readings -/

section
variable {ρ τ : Type} [LinearOrder τ] {time : ρ → τ} {rows more : List ρ} {matching : ρ → Bool} {t cutoff : τ} {row : ρ}

theorem latest_filter (p : ρ → Bool) (h : ∀ a b, time a ≤ time b → p a = true → p b = true) :
    latest time (rows.filter p) = (latest time rows).filter p := by
  have : Std.Total fun a b : ρ => time b ≤ time a := ⟨fun a b => le_total _ _⟩
  have : IsTrans ρ fun a b => time b ≤ time a := ⟨fun _ _ _ h h' => h'.trans h⟩
  have hsorted := sorted_latest time rows
  rw [latest, latest, insertionSort_filter]
  generalize rows.insertionSort (fun a b => time b ≤ time a) = sorted at hsorted
  cases sorted with
  | nil => rfl
  | cons a l =>
    rw [List.head?_cons, List.filter_cons, Option.filter_some]
    cases hp : p a with
    | true => rfl
    | false =>
      -- the others are older, so that they are dropped too
      have hnone : l.filter p = [] := by
        rw [List.filter_eq_nil_iff]
        intro b hb hpb
        have hle : time b ≤ time a := (List.pairwise_cons.mp hsorted).1 b hb
        exact absurd (h b a hle hpb) (by simp [hp])
      rw [if_neg Bool.false_ne_true, hnone]
      rfl

theorem latest_map {ρ' : Type} {time' : ρ' → τ} (f : ρ → ρ') (h : ∀ r, time' (f r) = time r) :
    latest time' (rows.map f) = (latest time rows).map f := by
  have hsort : (rows.insertionSort fun a b => time b ≤ time a).map f =
      (rows.map f).insertionSort fun a b => time' b ≤ time' a := by
    apply List.map_insertionSort
    intro a _ b _
    rw [h, h]
  rw [latest, latest, ← hsort, List.head?_map]

/-- The rows that a reading as of a time can find. -/
def upTo (time : ρ → τ) (matching : ρ → Bool) (t : τ) (rows : List ρ) : List ρ :=
  rows.filter fun r => matching r && decide (time r ≤ t)

/-- The latest of the rows of a reading up to a time. -/
def asOf (time : ρ → τ) (matching : ρ → Bool) (t : τ) (rows : List ρ) : Option ρ :=
  latest time (upTo time matching t rows)

theorem asOf_perm {rows' : List ρ} (h : rows.Perm rows') (hd : ((upTo time matching t rows).map time).Nodup) :
    asOf time matching t rows = asOf time matching t rows' := latest_perm (h.filter _) hd

/-- What happens to a table. -/
inductive Change (ρ τ : Type) where
  | add (rows : List ρ)
  | drop (cutoff : τ)

def Change.apply (time : ρ → τ) (rows : List ρ) : Change ρ τ → List ρ
  | .add more => rows ++ more
  | .drop cutoff => rows.filter fun r => decide (cutoff ≤ time r)

/-- The rows that come are later. -/
def Change.After (time : ρ → τ) (t : τ) : Change ρ τ → Prop
  | .add rows => ∀ r ∈ rows, t < time r
  | .drop _ => True

/-- The change leaves a row of the time. -/
def Change.keeps (s : τ) : Change ρ τ → Bool
  | .add _ => true
  | .drop cutoff => decide (cutoff ≤ s)

theorem asOf_some (h : asOf time matching t rows = some row) : row ∈ rows ∧ matching row = true ∧ time row ≤ t := by
  obtain ⟨hmem, hrow⟩ := List.mem_filter.mp (latest_spec h).1
  rw [Bool.and_eq_true, decide_eq_true_eq] at hrow
  exact ⟨hmem, hrow⟩

/-- Rows that come later are not seen. -/
theorem upTo_append (h : ∀ r ∈ more, t < time r) :
    upTo time matching t (rows ++ more) = upTo time matching t rows := by
  have hnone : more.filter (fun r => matching r && decide (time r ≤ t)) = [] := by
    rw [List.filter_eq_nil_iff]
    intro r hr hread
    rw [Bool.and_eq_true, decide_eq_true_eq] at hread
    exact absurd (h r hr) (not_lt.mpr hread.2)
  rw [upTo, List.filter_append, hnone, List.append_nil, ← upTo]

theorem asOf_append (h : ∀ r ∈ more, t < time r) :
    asOf time matching t (rows ++ more) = asOf time matching t rows := by
  rw [asOf, upTo_append h, ← asOf]

/-- One change: the reading is what it was, where the change leaves the row that it found. -/
theorem asOf_apply {c : Change ρ τ} (h : c.After time t) :
    asOf time matching t (c.apply time rows) = (asOf time matching t rows).filter fun r => c.keeps (time r) := by
  cases c with
  | add more =>
    rw [Change.apply, asOf_append h]
    cases asOf time matching t rows <;> rfl
  | drop cutoff =>
    have hcomm : (rows.filter fun r => decide (cutoff ≤ time r)).filter (fun r => matching r && decide (time r ≤ t)) =
        (rows.filter fun r => matching r && decide (time r ≤ t)).filter fun r => decide (cutoff ≤ time r) := by
      rw [List.filter_filter, List.filter_filter]
      apply List.filter_congr
      intro r _
      exact Bool.and_comm _ _
    rw [Change.apply, asOf, upTo, hcomm, latest_filter]
    · rfl
    · intro a b hab ha
      rw [decide_eq_true_eq] at ha ⊢
      exact ha.trans hab

/-- A run of changes whose rows are later brings no row that the reading can find. -/
theorem upTo_run {changes : List (Change ρ τ)} (h : ∀ c ∈ changes, c.After time t) :
    (upTo time matching t (changes.foldl (Change.apply time) rows)).Sublist (upTo time matching t rows) := by
  induction changes generalizing rows with
  | nil => exact List.Sublist.refl _
  | cons c changes ih =>
    have hrest : (upTo time matching t (changes.foldl (Change.apply time) (c.apply time rows))).Sublist
        (upTo time matching t (c.apply time rows)) :=
      ih fun d hd => h d (List.mem_cons_of_mem _ hd)
    refine hrest.trans ?_
    cases c with
    | add more => rw [Change.apply, upTo_append (h _ List.mem_cons_self)]
    | drop cutoff => exact List.filter_sublist.filter _

/-- A run of changes whose rows are later: what a reading found is found, or gone. -/
theorem asOf_run {changes : List (Change ρ τ)} (h : ∀ c ∈ changes, c.After time t) :
    asOf time matching t (changes.foldl (Change.apply time) rows) =
      (asOf time matching t rows).filter fun r => changes.all (Change.keeps (time r)) := by
  induction changes generalizing rows with
  | nil =>
    show asOf time matching t rows = _
    cases asOf time matching t rows <;> rfl
  | cons c changes ih =>
    rw [List.foldl_cons, ih fun d hd => h d (List.mem_cons_of_mem _ hd), asOf_apply (h c List.mem_cons_self),
      Option.filter_filter]
    simp only [List.all_cons]

end

end Temporal
