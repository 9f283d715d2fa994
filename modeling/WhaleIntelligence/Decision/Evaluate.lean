import Mathlib.Data.List.Forall2
import WhaleIntelligence.Json

/- The evaluation of a decision bundle: `evaluate`.

   A bundle is approved when it has evidence, fresh sources and every capability, when
   each required component is there once and every mandatory one passes, and when no
   halt input fires (`approve_iff`). The order of the components plays no part.

   Losing a pass value of a mandatory component, evidence, freshness or a capability
   never leads to an approval. A halt input is only looked at for a value that fires, so
   losing that value takes the halt away, and an approval follows where nothing else
   stands against it (`fail_closed_iff`). -/
namespace WhaleIntelligence.Decision
open WhaleIntelligence

inductive ComponentClass where
  | mandatoryPass | sizingInput | strategyInput | haltInput
  deriving DecidableEq, Repr

structure ComponentResult where
  componentClass : ComponentClass
  componentName : String
  pass : Option Bool
  deriving DecidableEq, Repr

structure DecisionBundle where
  evidenceSnapshotIds : List String
  componentResults : List ComponentResult
  missingCapabilities : List String
  sourceFreshness : Json

inductive Disposition where
  | approve | reject | missingCapability | insufficientEvidence
  deriving DecidableEq, Repr

/-- `REQUIRED_MANDATORY`. -/
def requiredMandatory : List String := ["security", "contract_identity", "chain_state", "mandatory_freshness"]

/-- The components under a required name. -/
def matching (components : List ComponentResult) (required : String) : List ComponentResult :=
  components.filter fun c => c.componentClass == .mandatoryPass && c.componentName == required

/-- The name does not appear exactly once, or does not pass. -/
def unmet (components : List ComponentResult) (required : String) : Bool :=
  match matching components required with
  | [c] => c.pass != some true
  | _ => true

/-- The component rejects the bundle. -/
def ComponentResult.rejects (c : ComponentResult) : Bool :=
  match c.componentClass with
  | .mandatoryPass => c.pass != some true
  | .haltInput => c.pass == some true
  | .sizingInput | .strategyInput => false

/-- `as_object().map(|o| o.is_empty()).unwrap_or(true)`. -/
def notFresh (sourceFreshness : Json) : Bool := (sourceFreshness.asObject.map List.isEmpty).getD true

def evaluate (bundle : DecisionBundle) : Disposition :=
  if bundle.evidenceSnapshotIds.isEmpty then .insufficientEvidence
  else if notFresh bundle.sourceFreshness then .insufficientEvidence
  else if !bundle.missingCapabilities.isEmpty then .missingCapability
  else if requiredMandatory.any (unmet bundle.componentResults) then .reject
  else if bundle.componentResults.any ComponentResult.rejects then .reject
  else .approve

/-! ## Approval -/

def ComponentResult.mandatory (c : ComponentResult) : Prop := c.componentClass = .mandatoryPass

/-- A halt input with a value that fires. -/
def ComponentResult.fires (c : ComponentResult) : Prop := c.componentClass = .haltInput ∧ c.pass = some true

/-- Nothing is missing, the halt inputs left aside. -/
structure Complete (b : DecisionBundle) : Prop where
  evidence : b.evidenceSnapshotIds ≠ []
  fresh : ∃ m members, b.sourceFreshness = .object (m :: members)
  capable : b.missingCapabilities = []
  required : ∀ name ∈ requiredMandatory, ∃ c, matching b.componentResults name = [c]
  passes : ∀ c ∈ b.componentResults, c.mandatory → c.pass = some true

variable {b b' : DecisionBundle}

theorem notFresh_eq_false {v : Json} : notFresh v = false ↔ ∃ m members, v = .object (m :: members) := by
  cases v with
  | object members => cases members <;> simp [notFresh, Json.asObject]
  | _ => simp [notFresh, Json.asObject]

theorem unmet_eq_false {components : List ComponentResult} {name : String} :
    unmet components name = false ↔ ∃ c, matching components name = [c] ∧ c.pass = some true := by
  rw [unmet]
  split
  · rename_i c hc
    simp [hc]
  · rename_i hne
    simp only [Bool.true_eq_false, false_iff]
    rintro ⟨c, hc, -⟩
    exact hne c hc

theorem mem_matching {components : List ComponentResult} {name : String} {c : ComponentResult} :
    c ∈ matching components name ↔ c ∈ components ∧ c.mandatory ∧ c.componentName = name := by
  simp [matching, ComponentResult.mandatory]

theorem rejects_eq_false {c : ComponentResult} :
    c.rejects = false ↔ (c.mandatory → c.pass = some true) ∧ ¬c.fires := by
  obtain ⟨componentClass, name, pass⟩ := c
  cases componentClass <;> simp [ComponentResult.rejects, ComponentResult.mandatory, ComponentResult.fires]

/-- A check that does not approve stands before the rest. -/
theorem check_eq_approve {check : Bool} {found rest : Disposition} (h : found ≠ .approve) :
    (if check then found else rest) = .approve ↔ check = false ∧ rest = .approve := by
  cases check with
  | false => simp
  | true => simp [h]

theorem approve_iff : evaluate b = .approve ↔ Complete b ∧ ∀ c ∈ b.componentResults, ¬c.fires := by
  have hchecks : evaluate b = .approve ↔ b.evidenceSnapshotIds ≠ [] ∧ notFresh b.sourceFreshness = false ∧
      b.missingCapabilities = [] ∧ (∀ name ∈ requiredMandatory, unmet b.componentResults name = false) ∧
      ∀ c ∈ b.componentResults, c.rejects = false := by
    rw [evaluate, check_eq_approve (by decide), check_eq_approve (by decide), check_eq_approve (by decide),
      check_eq_approve (by decide), check_eq_approve (by decide)]
    simp only [List.isEmpty_eq_false_iff, Bool.not_eq_false', List.isEmpty_iff, List.any_eq_false, Bool.not_eq_true,
      and_true, ne_eq]
  rw [hchecks]
  constructor
  · rintro ⟨hevidence, hfresh, hcapable, hrequired, hrejects⟩
    refine ⟨⟨hevidence, notFresh_eq_false.mp hfresh, hcapable, ?_, ?_⟩, ?_⟩
    · intro name hname
      obtain ⟨c, hc, -⟩ := unmet_eq_false.mp (hrequired name hname)
      exact ⟨c, hc⟩
    · intro c hc
      exact (rejects_eq_false.mp (hrejects c hc)).1
    · intro c hc
      exact (rejects_eq_false.mp (hrejects c hc)).2
  · rintro ⟨h, hhalt⟩
    refine ⟨h.evidence, notFresh_eq_false.mpr h.fresh, h.capable, ?_, ?_⟩
    · intro name hname
      obtain ⟨c, hc⟩ := h.required name hname
      have hmem : c ∈ matching b.componentResults name := hc ▸ List.mem_singleton.mpr rfl
      obtain ⟨hin, hmandatory, -⟩ := mem_matching.mp hmem
      exact unmet_eq_false.mpr ⟨c, hc, h.passes c hin hmandatory⟩
    · intro c hc
      exact rejects_eq_false.mpr ⟨h.passes c hc, hhalt c hc⟩

/-! ## The order of the components -/

theorem unmet_perm {components components' : List ComponentResult} (h : components.Perm components') (name : String) :
    unmet components name = unmet components' name := by
  have hperm : (matching components name).Perm (matching components' name) := h.filter _
  rw [Bool.eq_iff_iff, ← not_iff_not, Bool.not_eq_true, Bool.not_eq_true, unmet_eq_false, unmet_eq_false]
  apply exists_congr
  intro c
  apply and_congr_left'
  constructor
  · intro hc
    rw [hc] at hperm
    exact (List.singleton_perm.mp hperm).symm
  · intro hc
    rw [hc] at hperm
    exact List.perm_singleton.mp hperm

theorem evaluate_perm {components : List ComponentResult} (h : b.componentResults.Perm components) :
    evaluate { b with componentResults := components } = evaluate b := by
  have hunmet : unmet components = unmet b.componentResults := funext fun name => (unmet_perm h name).symm
  simp only [evaluate, hunmet, h.any_eq]

/-! ## Loss of information -/

/-- The result with its value kept or erased. -/
def Erased (c c' : ComponentResult) : Prop := c' = c ∨ c' = { c with pass := none }

/-- `b'` is `b` with some information lost. -/
structure Loses (b b' : DecisionBundle) : Prop where
  components : List.Forall₂ Erased b.componentResults b'.componentResults
  evidence : b'.evidenceSnapshotIds.Sublist b.evidenceSnapshotIds
  freshness : b'.sourceFreshness = b.sourceFreshness ∨ b'.sourceFreshness = .object []
  capabilities : b.missingCapabilities.Sublist b'.missingCapabilities

theorem Erased.name {c c' : ComponentResult} (h : Erased c c') :
    c'.componentClass = c.componentClass ∧ c'.componentName = c.componentName := by
  obtain rfl | rfl := h
  · exact ⟨rfl, rfl⟩
  · exact ⟨rfl, rfl⟩

/-- A value that is left was there before. -/
theorem Erased.pass {c c' : ComponentResult} (h : Erased c c') {v : Bool} (hv : c'.pass = some v) :
    c.pass = some v := by
  obtain rfl | rfl := h
  · exact hv
  · simp at hv

theorem matching_erased {components components' : List ComponentResult} (h : List.Forall₂ Erased components components')
    (name : String) : List.Forall₂ Erased (matching components name) (matching components' name) := by
  apply List.rel_filter (R := Erased) ?_ h
  intro c c' hc
  show (c.componentClass == .mandatoryPass && c.componentName == name) = true ↔
    (c'.componentClass == .mandatoryPass && c'.componentName == name) = true
  rw [hc.name.1, hc.name.2]

/-- Nothing that is missing comes back. -/
theorem Loses.complete (h : Loses b b') (hcomplete : Complete b') : Complete b where
  evidence := by
    intro hnil
    have := h.evidence
    rw [hnil, List.sublist_nil] at this
    exact hcomplete.evidence this
  fresh := by
    obtain ⟨m, members, hfresh⟩ := hcomplete.fresh
    obtain heq | heq := h.freshness
    · exact ⟨m, members, heq ▸ hfresh⟩
    · rw [heq] at hfresh
      simp at hfresh
  capable := by
    have := h.capabilities
    rw [hcomplete.capable, List.sublist_nil] at this
    exact this
  required := by
    intro name hname
    obtain ⟨c', hc'⟩ := hcomplete.required name hname
    have hmatching := matching_erased h.components name
    rw [hc'] at hmatching
    obtain ⟨c, l, -, hl, heq⟩ := List.forall₂_cons_right_iff.mp hmatching
    rw [List.forall₂_nil_right_iff] at hl
    exact ⟨c, by rw [heq, hl]⟩
  passes := by
    intro c hc hmandatory
    obtain ⟨i, hi, rfl⟩ := List.getElem_of_mem hc
    have hi' : i < b'.componentResults.length := h.components.length_eq ▸ hi
    have herased : Erased b.componentResults[i] b'.componentResults[i] := h.components.get hi hi'
    apply herased.pass
    apply hcomplete.passes _ (List.getElem_mem hi')
    exact herased.name.1.trans hmandatory

/-- Losing information never turns a bundle into one that is approved, whatever the order of the components,
    exactly where a halt input that fires has another one, or something missing, to stand for it. -/
theorem fail_closed_iff (h : Loses b b') :
    ((evaluate b ≠ .approve → evaluate b' ≠ .approve) ∧
      ∀ components, b.componentResults.Perm components →
        evaluate { b with componentResults := components } = evaluate b) ↔
      ((∃ c ∈ b.componentResults, c.fires) → (∃ c ∈ b'.componentResults, c.fires) ∨ ¬Complete b') := by
  rw [and_iff_left fun _ hperm => evaluate_perm hperm, ne_eq, ne_eq, approve_iff, approve_iff]
  constructor
  · rintro hclosed ⟨c, hc, hfires⟩
    by_contra hnone
    rw [not_or, not_not] at hnone
    apply hclosed
    · intro happrove
      exact happrove.2 c hc hfires
    · exact ⟨hnone.2, fun c hc hfires => hnone.1 ⟨c, hc, hfires⟩⟩
  · intro hhalt hb hb'
    apply hb
    refine ⟨h.complete hb'.1, ?_⟩
    intro c hc hfires
    obtain ⟨c', hc', hfires'⟩ | hmissing := hhalt ⟨c, hc, hfires⟩
    · exact hb'.2 c' hc' hfires'
    · exact hmissing hb'.1

/-- Everything required passes, and there are halt inputs of these values. -/
def halted (values : List (Option Bool)) : DecisionBundle where
  evidenceSnapshotIds := ["e1"]
  componentResults := (requiredMandatory.map fun name => ⟨.mandatoryPass, name, some true⟩) ++
    values.map fun v => ⟨.haltInput, "drawdown", v⟩
  missingCapabilities := []
  sourceFreshness := .object [("fresh", .bool true)]

theorem halted_loses {values values' : List (Option Bool)}
    (h : List.Forall₂ (fun v v' => v' = v ∨ v' = none) values values') : Loses (halted values) (halted values') where
  components := by
    apply List.rel_append
    · exact List.forall₂_same.mpr fun c _ => Or.inl rfl
    · induction h with
      | nil => exact List.Forall₂.nil
      | cons hv _ ih =>
        apply List.Forall₂.cons _ ih
        obtain rfl | rfl := hv
        · exact Or.inl rfl
        · exact Or.inr rfl
  evidence := List.Sublist.refl _
  freshness := Or.inl rfl
  capabilities := List.Sublist.refl _

/-- A bundle that is rejected because of its halt is approved once the value is lost. -/
theorem lost_halt_approved : Loses (halted [some true]) (halted [none]) ∧
    evaluate (halted [some true]) = .reject ∧ evaluate (halted [none]) = .approve :=
  ⟨halted_loses (by simp), by decide, by decide⟩

/-- With another halt that fires the loss of one changes nothing. -/
theorem other_halt_rejects : (evaluate (halted [some true, some true]) ≠ .approve →
      evaluate (halted [none, some true]) ≠ .approve) ∧
    ∀ components, (halted [some true, some true]).componentResults.Perm components →
      evaluate { halted [some true, some true] with componentResults := components } =
        evaluate (halted [some true, some true]) := by
  apply (fail_closed_iff (halted_loses (by simp))).mpr
  intro _
  left
  exact ⟨⟨.haltInput, "drawdown", some true⟩, by simp [halted], rfl, rfl⟩

end WhaleIntelligence.Decision
