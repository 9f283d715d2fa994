/- Fields joined by a delimiter.

   Splitting a joined text gives the parts of its fields, one field after the other
   (`splitOn_join`), and loses only where one field ends and the next begins. So two lists
   of fields are joined to one text exactly where they have the same parts
   (`join_eq_iff`), and a text stands for one list of fields unless its parts are grouped
   into fields in another way (`join_inj_iff`), which takes a delimiter inside of a field
   (`not_regrouped`). -/
namespace Delimited

section
variable {α : Type} [DecidableEq α] (d : α)

def join (fields : List (List α)) : List α := [d].intercalate fields

/-- The parts between the delimiters of each field. -/
def parts (fields : List (List α)) : List (List α) := fields.flatMap fun f => f.splitOn d

theorem splitOn_join : ∀ {fields : List (List α)}, fields ≠ [] → (join d fields).splitOn d = parts d fields
  | [], h => absurd rfl h
  | [f], _ => by simp [join, parts]
  | f :: g :: fields, _ => by
    have ih := @splitOn_join (g :: fields) (List.cons_ne_nil _ _)
    rw [join, List.intercalate_cons_cons, List.append_assoc, List.singleton_append, ← join,
      List.splitOn_append_cons_self, ih]
    rfl

variable {d} {fields fields' : List (List α)}

theorem join_eq_iff (h : fields ≠ []) (h' : fields' ≠ []) :
    join d fields = join d fields' ↔ parts d fields = parts d fields' := by
  rw [← splitOn_join d h, ← splitOn_join d h']
  constructor
  · intro heq
    rw [heq]
  · intro heq
    have hjoin := congrArg (fun parts => [d].intercalate parts) heq
    simpa only [List.intercalate_splitOn] using hjoin

variable (d) in
/-- Other fields with the same parts. -/
def Regrouped (fields fields' : List (List α)) : Prop := fields ≠ fields' ∧ parts d fields = parts d fields'

theorem join_inj_iff (h : fields ≠ []) (h' : fields' ≠ []) :
    (join d fields = join d fields' → fields = fields') ↔ ¬Regrouped d fields fields' := by
  rw [join_eq_iff h h', Regrouped, not_and', ne_eq, Decidable.not_not]

omit [DecidableEq α] in
theorem join_ne_nil (hne : fields ≠ []) (h : ∀ f ∈ fields, f ≠ []) : join d fields ≠ [] := by
  cases fields with
  | nil => exact absurd rfl hne
  | cons f fields =>
    cases fields with
    | nil =>
      rw [join, List.intercalate_singleton]
      exact h f List.mem_cons_self
    | cons g fields =>
      rw [join, List.intercalate_cons_cons]
      simp

/-- Fields that are not empty need not be there. -/
theorem eq_of_join_eq (h : ∀ f ∈ fields, f ≠ []) (h' : ∀ f ∈ fields', f ≠ []) (hone : ¬Regrouped d fields fields')
    (heq : join d fields = join d fields') : fields = fields' := by
  by_cases hnil : fields = []
  · subst hnil
    by_cases hnil' : fields' = []
    · exact hnil'.symm
    · exact absurd heq.symm (join_ne_nil hnil' h')
  · by_cases hnil' : fields' = []
    · subst hnil'
      exact absurd heq (join_ne_nil hnil h)
    · exact (join_inj_iff hnil hnil').mpr hone heq

theorem parts_eq (h : ∀ f ∈ fields, d ∉ f) : parts d fields = fields := by
  induction fields with
  | nil => rfl
  | cons f fields ih =>
    rw [parts, List.flatMap_cons, ← parts, List.splitOn_eq_singleton (h f List.mem_cons_self),
      ih fun g hg => h g (List.mem_cons_of_mem _ hg)]
    rfl

theorem not_regrouped (h : ∀ f ∈ fields, d ∉ f) (h' : ∀ f ∈ fields', d ∉ f) : ¬Regrouped d fields fields' := by
  rintro ⟨hne, hparts⟩
  rw [parts_eq h, parts_eq h'] at hparts
  exact hne hparts

end

end Delimited
