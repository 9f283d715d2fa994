import WhaleIntelligence.Lib.Walks

/- The lifecycles of strategies and of tokens.

   A strategy goes up its stages one at a time, but for the toggle between active and
   paused, so it comes to be live by no other way than through the stages that test it
   (`goes_live`), and retirement is the end of it.

   A token's lifecycle takes reports of its stage as they come. It never goes back, and
   what many reports make of it is the first of them that is terminal, or the latest
   stage where there is none (`advance_reports`): the order of the reports matters only
   between two different terminal stages (`advance_order`). -/
namespace WhaleIntelligence.Lifecycle
open Walks

/-! ## Strategies -/

inductive StrategyLifecycle where
  | draft | shadow | paper | validated | approved | canary | active | paused | retired
  deriving DecidableEq, Repr

namespace StrategyLifecycle

def stageIndex : StrategyLifecycle → Nat
  | draft => 0
  | shadow => 1
  | paper => 2
  | validated => 3
  | approved => 4
  | canary => 5
  | active => 6
  | paused => 7
  | retired => 8

/-- The stages up to the active one. -/
def ladder : List StrategyLifecycle := [draft, shadow, paper, validated, approved, canary, active]

end StrategyLifecycle

open StrategyLifecycle

/-- Whether a strategy can go from the one stage to the other. -/
def canTransition (current next : StrategyLifecycle) : Bool :=
  if current == retired then false
  else if (current == active && next == paused) || (current == paused && next == active) then true
  else next.stageIndex == current.stageIndex + 1

def isLiveReady : StrategyLifecycle → Bool
  | approved | canary | active => true
  | _ => false

section
variable {a b s t : StrategyLifecycle} {path : List StrategyLifecycle}

/-- The ways of a strategy. -/
abbrev Career : StrategyLifecycle → List StrategyLifecycle → StrategyLifecycle → Prop :=
  Walk fun a b => canTransition a b = true

/-- An edge goes to the next stage, or it is the toggle, which is above the ladder. -/
theorem canTransition_step (h : canTransition a b = true) :
    b.stageIndex = a.stageIndex + 1 ∨ (6 ≤ a.stageIndex ∧ 6 ≤ b.stageIndex) := by
  unfold canTransition at h
  split at h
  · exact absurd h (by decide)
  · split at h
    · next htoggle =>
      simp only [Bool.or_eq_true, Bool.and_eq_true, beq_iff_eq] at htoggle
      rcases htoggle with ⟨rfl, rfl⟩ | ⟨rfl, rfl⟩
      · exact Or.inr ⟨by decide, by decide⟩
      · exact Or.inr ⟨by decide, by decide⟩
    · exact Or.inl (beq_iff_eq.mp h)

theorem stop_retired : Stop (fun a b => canTransition a b = true) retired := fun b h => by
  cases b <;> exact absurd h (by decide)

theorem ladder_get (h : a.stageIndex ≤ 6) : ladder[a.stageIndex]? = some a := by
  cases a <;> first | rfl | exact absurd h (by decide)

theorem stageIndex_above (h : 6 ≤ a.stageIndex) : a = active ∨ a = paused ∨ a = retired := by
  cases a <;> first | exact absurd h (by decide) | simp

/-- A strategy that has come up to a stage of the ladder has been in every stage below it, in order, and
stays at the stage or above. -/
theorem career_climbs {limit : Nat} (h : Career draft path t) (hlimit : limit ≤ 6) (ht : limit ≤ t.stageIndex) :
    ∃ after, path = (ladder.drop 1).take limit ++ after ∧ ∀ a ∈ after, limit ≤ a.stageIndex := by
  have hedge : ∀ a b : StrategyLifecycle, canTransition a b = true →
      b.stageIndex = a.stageIndex + 1 ∨ (limit ≤ a.stageIndex ∧ limit ≤ b.stageIndex) := by
    intro a b hab
    rcases canTransition_step hab with hnext | ⟨ha, hb⟩
    · exact Or.inl hnext
    · exact Or.inr ⟨by omega, by omega⟩
  obtain ⟨before, after, rfl, hbefore, hafter⟩ := h.climbs hedge ht (Nat.zero_le limit)
  refine ⟨after, ?_, hafter⟩
  have hladder : ∀ a ∈ before, ladder[a.stageIndex]? = some a := by
    intro a ha
    have hmem : a.stageIndex ∈ List.range' (0 + 1) (limit - 0) := by
      rw [← show before.map stageIndex = List.range' (0 + 1) (limit - 0) from hbefore]
      exact List.mem_map_of_mem ha
    have hrange := List.mem_range'_1.mp hmem
    exact ladder_get (by omega)
  rw [eq_of_stages hbefore hladder]
  rfl

/-- A strategy that can go live has been through the shadow, the paper and the validation stage and has been
approved, in this order; once active it is toggled with paused until it is retired, which is the end. -/
theorem goes_live (h : Career draft path t) :
    (isLiveReady t = true → ∃ after, path = [shadow, paper, validated, approved] ++ after) ∧
      (6 ≤ t.stageIndex → ∃ after, path = [shadow, paper, validated, approved, canary, active] ++ after ∧
        (∀ a ∈ after, a = active ∨ a = paused ∨ a = retired) ∧
        ∀ before later, after = before ++ retired :: later → later = [] ∧ t = retired) := by
  constructor
  · intro hlive
    have hstage : 4 ≤ t.stageIndex := by
      cases t <;> first | decide | exact absurd hlive (by decide)
    obtain ⟨after, hpath, -⟩ := career_climbs h (by decide) hstage
    exact ⟨after, hpath⟩
  · intro hstage
    obtain ⟨after, hpath, hafter⟩ := career_climbs h (by decide) hstage
    refine ⟨after, hpath, fun a ha => stageIndex_above (hafter a ha), ?_⟩
    rintro before later rfl
    rw [hpath, ← List.append_assoc] at h
    exact h.stop_last stop_retired

theorem goes_live_paused : (isLiveReady paused = true → ∃ after,
      [shadow, paper, validated, approved, canary, active, paused] = [shadow, paper, validated, approved] ++ after) ∧
    (6 ≤ paused.stageIndex → ∃ after,
      [shadow, paper, validated, approved, canary, active, paused] =
          [shadow, paper, validated, approved, canary, active] ++ after ∧
        (∀ a ∈ after, a = active ∨ a = paused ∨ a = retired) ∧
        ∀ before later, after = before ++ retired :: later → later = [] ∧ paused = retired) :=
  goes_live (t := paused) (by simp [Career, walk_cons, walk_nil, canTransition, stageIndex])

end

/-! ## Tokens -/

inductive TokenLifecycle where
  | created | preGraduation | migrated | firstLiquidity | active | cooling | dormant | archived | tombstoned
  deriving DecidableEq, Repr

namespace TokenLifecycle

def stageIndex : TokenLifecycle → Nat
  | created => 0
  | preGraduation => 1
  | migrated => 2
  | firstLiquidity => 3
  | active => 4
  | cooling => 5
  | dormant => 6
  | archived => 7
  | tombstoned => 8

/-- The stages that a token does not leave. -/
def isTerminal (s : TokenLifecycle) : Bool := s == archived || s == tombstoned

end TokenLifecycle

def canAdvance (current next : TokenLifecycle) : Bool :=
  if current == .archived || current == .tombstoned then false
  else decide (current.stageIndex ≤ next.stageIndex)

def advance (current next : TokenLifecycle) : TokenLifecycle := if canAdvance current next then next else current

section
variable {current next : TokenLifecycle} {reports reports' : List TokenLifecycle}

theorem token_stageIndex_injective : Function.Injective TokenLifecycle.stageIndex := by
  intro a b h
  cases a <;> cases b <;> first | rfl | exact absurd h (by decide)

theorem isTerminal_iff_stageIndex (s : TokenLifecycle) : s.isTerminal = true ↔ 7 ≤ s.stageIndex := by
  cases s <;> decide

theorem advance_terminal (h : current.isTerminal = true) : advance current next = current := by
  unfold advance canAdvance
  rw [TokenLifecycle.isTerminal] at h
  rw [h]
  rfl

/-- A token that is not terminal takes the later of the two stages. -/
theorem advance_open (h : current.isTerminal = false) :
    advance current next = if current.stageIndex ≤ next.stageIndex then next else current := by
  unfold advance canAdvance
  rw [TokenLifecycle.isTerminal] at h
  simp [h]

theorem foldl_advance_terminal (h : current.isTerminal = true) : reports.foldl advance current = current := by
  induction reports with
  | nil => rfl
  | cons r reports ih => rw [List.foldl_cons, advance_terminal h, ih]

/-- What the reports make of a token: the first that is terminal, or else the latest stage. -/
theorem advance_reports (reports : List TokenLifecycle) (h : current.isTerminal = false) :
    (∀ r, reports.find? (·.isTerminal) = some r → reports.foldl advance current = r) ∧
      (reports.find? (·.isTerminal) = none → reports.foldl advance current ∈ current :: reports ∧
        ∀ r ∈ current :: reports, r.stageIndex ≤ (reports.foldl advance current).stageIndex) := by
  induction reports generalizing current with
  | nil => simp
  | cons r reports ih =>
    rw [List.foldl_cons, List.find?_cons]
    cases hr : r.isTerminal with
    | true =>
      have hlater : current.stageIndex ≤ r.stageIndex := by
        have hhigh := (isTerminal_iff_stageIndex r).mp hr
        have hlow := mt (isTerminal_iff_stageIndex current).mpr (by rw [h]; decide)
        omega
      have hstep : advance current r = r := by rw [advance_open h, if_pos hlater]
      rw [hstep, foldl_advance_terminal hr]
      exact ⟨fun r' hr' => Option.some.inj hr', fun hnone => absurd hnone (by simp)⟩
    | false =>
      have hnext : (advance current r).isTerminal = false := by
        rw [advance_open h]
        split
        · exact hr
        · exact h
      obtain ⟨hfirst, hlatest⟩ := ih hnext
      refine ⟨hfirst, fun hnone => ?_⟩
      obtain ⟨hmem, hmax⟩ := hlatest hnone
      have hstep : current.stageIndex ≤ (advance current r).stageIndex ∧
          r.stageIndex ≤ (advance current r).stageIndex ∧ (advance current r = r ∨ advance current r = current) := by
        rw [advance_open h]
        split
        · next hle => exact ⟨hle, Nat.le_refl _, Or.inl rfl⟩
        · next hlt => exact ⟨Nat.le_refl _, by omega, Or.inr rfl⟩
      obtain ⟨hcurrent, hreport, hone⟩ := hstep
      have htop := hmax _ List.mem_cons_self
      refine ⟨?_, ?_⟩
      · rcases List.mem_cons.mp hmem with hsame | hlater
        · rw [hsame]
          rcases hone with hone | hone <;> rw [hone] <;> simp
        · exact List.mem_cons_of_mem _ (List.mem_cons_of_mem _ hlater)
      · intro s hs
        rcases List.mem_cons.mp hs with rfl | hs
        · omega
        · rcases List.mem_cons.mp hs with rfl | hs
          · omega
          · exact hmax s (List.mem_cons_of_mem _ hs)

/-- The order of the reports, and how often one is repeated, does not matter unless two different terminal
stages are among them. -/
theorem advance_order (hsame : ∀ r, r ∈ reports ↔ r ∈ reports')
    (honce : ∀ r ∈ reports, ∀ r' ∈ reports, r.isTerminal = true → r'.isTerminal = true → r = r') :
    reports.foldl advance current = reports'.foldl advance current := by
  cases h : current.isTerminal with
  | true => rw [foldl_advance_terminal h, foldl_advance_terminal h]
  | false =>
    obtain ⟨hfirst, hlatest⟩ := advance_reports reports h
    obtain ⟨hfirst', hlatest'⟩ := advance_reports reports' h
    have hnone : reports.find? (·.isTerminal) = none ↔ reports'.find? (·.isTerminal) = none := by
      simp only [List.find?_eq_none, hsame]
    cases hfind : reports.find? (·.isTerminal) with
    | some r =>
      cases hfind' : reports'.find? (·.isTerminal) with
      | none => rw [hnone.mpr hfind'] at hfind; cases hfind
      | some r' =>
        rw [hfirst r hfind, hfirst' r' hfind']
        exact honce r (List.mem_of_find?_eq_some hfind) r' ((hsame r').mpr (List.mem_of_find?_eq_some hfind'))
          (List.find?_some hfind) (List.find?_some hfind')
    | none =>
      obtain ⟨hmem, hmax⟩ := hlatest hfind
      obtain ⟨hmem', hmax'⟩ := hlatest' (hnone.mp hfind)
      have hcons : ∀ r, r ∈ current :: reports ↔ r ∈ current :: reports' := by
        intro r
        rw [List.mem_cons, List.mem_cons, hsame]
      have hle := hmax _ ((hcons _).mpr hmem')
      have hle' := hmax' _ ((hcons _).mp hmem)
      exact token_stageIndex_injective (by omega)

theorem advance_order_duplicates :
    [TokenLifecycle.active, .archived, .migrated].foldl advance .created =
      [TokenLifecycle.migrated, .active, .migrated, .archived].foldl advance .created := by
  refine advance_order (fun r => ?_) ?_
  · simp
    tauto
  · decide

end

end WhaleIntelligence.Lifecycle
