import Mathlib.Algebra.Order.Ring.Rat
import Mathlib.Order.WithBot
import WhaleIntelligence.Execution.Authority

/- The gate of autonomous actions.

   The guard of an autonomous action carries the thresholds that its evidence is held
   against, and the gate holds these thresholds against frozen minimums first. So what
   the gate lets through meets the frozen minimums whatever thresholds come with it
   (`permitted_frozen`), and weaker thresholds let nothing through that stricter ones
   would not. The rung that an action needs is that of its class, which is the class of
   the kill switches and of the table in the database (`permitted_iff`, `rung_class`). -/
namespace WhaleIntelligence.Execution

/-! ## Numbers -/

/-- An `f64` as comparisons see it: not a number, infinite, or a rational. -/
abbrev F64 := Option (WithBot (WithTop Rat))

namespace F64

def ofRat (q : Rat) : F64 := some (WithTop.some q : WithTop Rat)

/-- `a <= b`. Nothing compares with what is not a number. -/
def le : F64 → F64 → Bool
  | some a, some b => decide (a ≤ b)
  | _, _ => false

/-- `a < b`. -/
def lt : F64 → F64 → Bool
  | some a, some b => decide (a < b)
  | _, _ => false

theorem le_trans {a b c : F64} (h : a.le b = true) (h' : b.le c = true) : a.le c = true := by
  rcases a with - | a <;> rcases b with - | b <;> rcases c with - | c <;> simp_all only [le, decide_eq_true_eq]
  all_goals first | exact h.trans h' | cases h

theorem lt_of_le_of_lt {a b c : F64} (h : a.le b = true) (h' : b.lt c = true) : a.lt c = true := by
  rcases a with - | a <;> rcases b with - | b <;> rcases c with - | c <;> simp_all only [le, lt, decide_eq_true_eq]
  all_goals first | exact h.trans_lt h' | cases h

end F64

/-! ## Types -/

inductive TradingMode where
  | readOnly | shadow | paper | confirmEach | autoBounded | paused | halted
  deriving DecidableEq, Repr

structure RolloutThresholds where
  minForwardSample : Nat
  forwardHorizonDays : Nat
  maxDrawdownPct : F64
  ciLowerBound : F64
  requiresHumanApproval : Bool

structure AutonomyGuard where
  thresholds : RolloutThresholds
  forwardSample : Nat
  forwardHorizonDays : Nat
  currentDrawdownPct : F64
  ciLowerBound : F64
  evidenceRefs : List String
  humanApproved : Bool

inductive RolloutPhase where
  | shadow | paper | confirmEach | autoBoundedClaimClose | autoBoundedOpenReseed | advanced
  deriving DecidableEq, Repr

/-- The derived order of the phases. -/
def RolloutPhase.rank : RolloutPhase → Nat
  | shadow => 0
  | paper => 1
  | confirmEach => 2
  | autoBoundedClaimClose => 3
  | autoBoundedOpenReseed => 4
  | advanced => 5

structure AutonomousCycle where
  mode : TradingMode
  phase : RolloutPhase
  guard : AutonomyGuard
  canary : Bool

/-! ## The gate -/

def AutonomyGuard.canRaiseLimit (g : AutonomyGuard) : Bool :=
  g.thresholds.requiresHumanApproval && g.humanApproved && decide (g.thresholds.minForwardSample ≤ g.forwardSample) &&
    decide (g.thresholds.forwardHorizonDays ≤ g.forwardHorizonDays) &&
    g.thresholds.maxDrawdownPct.le g.currentDrawdownPct && g.thresholds.ciLowerBound.lt g.ciLowerBound

def thresholdsSane (t : RolloutThresholds) : Bool :=
  decide (30 ≤ t.minForwardSample) && decide (14 ≤ t.forwardHorizonDays) && (F64.ofRat (-10)).le t.maxDrawdownPct &&
    t.maxDrawdownPct.lt (F64.ofRat 0) && (F64.ofRat 0).le t.ciLowerBound && t.requiresHumanApproval

def isAutonomous (mode : TradingMode) : Bool := mode == .autoBounded

def canOpen : RolloutPhase → Bool
  | .autoBoundedOpenReseed | .advanced => true
  | _ => false

def canClaimClose : RolloutPhase → Bool
  | .autoBoundedClaimClose | .autoBoundedOpenReseed | .advanced => true
  | _ => false

inductive ActionMaturity where
  | claimClose | opening
  deriving DecidableEq, Repr

def classifyAction : Action → Option ActionMaturity
  | .lp .claimFees | .lp .closePosition | .lp .partialWithdraw | .lp .swapResiduals | .lp .emergencyExit
  | .trade .sell | .trade .partialSell | .trade .close | .trade .emergencyExit => some .claimClose
  | .lp .openPosition | .lp .reseedPosition | .lp .addLiquidity | .lp .compoundFees | .trade .buy => some .opening

def autonomousActionPermitted (mode : TradingMode) (phase : RolloutPhase) (action : Action) (canary : Bool)
    (guard : AutonomyGuard) : Bool :=
  if !isAutonomous mode then false
  else if !canary then false
  else if !thresholdsSane guard.thresholds then false
  else match classifyAction action with
    | none => false
    | some maturity =>
      let phaseOk := match maturity with
        | .opening => canOpen phase
        | .claimClose => canClaimClose phase
      phaseOk && !guard.evidenceRefs.isEmpty && guard.canRaiseLimit

def limitRaisePermitted (phase : RolloutPhase) (guard : AutonomyGuard) : Bool :=
  autonomousActionPermitted .autoBounded phase (.lp .claimFees) true guard

def cycleReady (cycle : AutonomousCycle) : Bool :=
  autonomousActionPermitted cycle.mode cycle.phase (.lp .claimFees) cycle.canary cycle.guard

/-! ## What it lets through -/

/-- The rung that an action needs: reducing what is at risk matures before adding to it. -/
def Action.rung (x : Action) : RolloutPhase := if x.reducing then .autoBoundedClaimClose else .autoBoundedOpenReseed

/-- The evidence is reviewed and approved, and it meets the frozen minimums. -/
structure Frozen (g : AutonomyGuard) : Prop where
  evidence : g.evidenceRefs ≠ []
  approved : g.humanApproved = true
  sample : 30 ≤ g.forwardSample
  horizon : 14 ≤ g.forwardHorizonDays
  drawdown : (F64.ofRat (-10)).le g.currentDrawdownPct = true
  confidence : (F64.ofRat 0).lt g.ciLowerBound = true

section
variable {mode : TradingMode} {phase : RolloutPhase} {x : Action} {canary : Bool} {g : AutonomyGuard}

theorem canOpen_iff : canOpen phase = true ↔ RolloutPhase.rank .autoBoundedOpenReseed ≤ phase.rank := by
  cases phase <;> decide

theorem canClaimClose_iff : canClaimClose phase = true ↔ RolloutPhase.rank .autoBoundedClaimClose ≤ phase.rank := by
  cases phase <;> decide

/-- The classes of autonomy are those of the kill switches. -/
theorem classifyAction_eq (x : Action) : classifyAction x = some (if x.reducing then .claimClose else .opening) := by
  obtain t | t := x <;> cases t <;> rfl

theorem permitted_iff : autonomousActionPermitted mode phase x canary g = true ↔
    mode = .autoBounded ∧ canary = true ∧ x.rung.rank ≤ phase.rank ∧ thresholdsSane g.thresholds = true ∧
      g.evidenceRefs ≠ [] ∧ g.canRaiseLimit = true := by
  have hphase : (match (if x.reducing then ActionMaturity.claimClose else .opening) with
      | .opening => canOpen phase
      | .claimClose => canClaimClose phase) = true ↔ x.rung.rank ≤ phase.rank := by
    unfold Action.rung
    cases x.reducing with
    | true => exact canClaimClose_iff
    | false => exact canOpen_iff
  unfold autonomousActionPermitted isAutonomous
  rw [classifyAction_eq]
  by_cases hmode : mode = .autoBounded
  · cases canary with
    | false => simp
    | true =>
      cases hsane : thresholdsSane g.thresholds with
      | false => simp
      | true => simp [hmode, hphase, and_assoc]
  · simp [hmode]

/-- What is let through meets the frozen minimums, whatever thresholds it comes with. -/
theorem frozen_of_thresholds (hsane : thresholdsSane g.thresholds = true) (hraise : g.canRaiseLimit = true)
    (hevidence : g.evidenceRefs ≠ []) : Frozen g := by
  simp only [thresholdsSane, AutonomyGuard.canRaiseLimit, Bool.and_eq_true, decide_eq_true_eq] at hsane hraise
  obtain ⟨⟨⟨⟨⟨hsample, hhorizon⟩, hdrawdown⟩, -⟩, hci⟩, -⟩ := hsane
  obtain ⟨⟨⟨⟨⟨-, happroved⟩, hsample'⟩, hhorizon'⟩, hdrawdown'⟩, hci'⟩ := hraise
  exact ⟨hevidence, happroved, hsample.trans hsample', hhorizon.trans hhorizon',
    F64.le_trans hdrawdown hdrawdown', F64.lt_of_le_of_lt hci hci'⟩

/-- What is let through lets every action of the same or the lower rung through, in that phase and in each later one. -/
theorem permitted_mono (h : autonomousActionPermitted mode phase x canary g = true) {y : Action}
    {later : RolloutPhase} (hclass : y.reducing = true ∨ x.reducing = false) (hlater : phase.rank ≤ later.rank) :
    autonomousActionPermitted mode later y canary g = true := by
  obtain ⟨hmode, hcanary, hrung, hevidence⟩ := permitted_iff.mp h
  refine permitted_iff.mpr ⟨hmode, hcanary, ?_, hevidence⟩
  have hlower : y.rung.rank ≤ x.rung.rank := by
    unfold Action.rung
    rcases hclass with hy | hx
    · rw [if_pos hy]
      split <;> decide
    · rw [hx]
      split <;> decide
  omega

/-- An autonomous action that is let through is a canary of a bounded mode, on evidence that meets the frozen
minimums, in a phase that has reached its rung; and every action of the same or the lower rung is let through in
that phase and in each later one. -/
theorem permitted_frozen (h : autonomousActionPermitted mode phase x canary g = true) :
    mode = .autoBounded ∧ canary = true ∧ Frozen g ∧ x.rung.rank ≤ phase.rank ∧
      ∀ (y : Action) (later : RolloutPhase), (y.reducing = true ∨ x.reducing = false) → phase.rank ≤ later.rank →
        autonomousActionPermitted mode later y canary g = true := by
  obtain ⟨hmode, hcanary, hrung, hsane, hevidence, hraise⟩ := permitted_iff.mp h
  exact ⟨hmode, hcanary, frozen_of_thresholds hsane hraise hevidence, hrung, fun y later => permitted_mono h⟩

/-- Thirty canaries over two weeks, approved, and five percent down at most. -/
def reviewedGuard : AutonomyGuard where
  thresholds := ⟨30, 14, F64.ofRat (-10), F64.ofRat 0, true⟩
  forwardSample := 30
  forwardHorizonDays := 14
  currentDrawdownPct := F64.ofRat (-5)
  ciLowerBound := F64.ofRat 1
  evidenceRefs := ["forward"]
  humanApproved := true

theorem permitted_frozen_reviewed : TradingMode.autoBounded = .autoBounded ∧ true = true ∧ Frozen reviewedGuard ∧
    (Action.lp .claimFees).rung.rank ≤ RolloutPhase.rank .autoBoundedClaimClose ∧
      ∀ (y : Action) (later : RolloutPhase), (y.reducing = true ∨ (Action.lp .claimFees).reducing = false) →
        RolloutPhase.rank .autoBoundedClaimClose ≤ later.rank →
          autonomousActionPermitted .autoBounded later y true reviewedGuard = true :=
  permitted_frozen (by decide)

/-- The table of the database puts an action on the same side as its rung. -/
theorem rung_class (x : Action) :
    intentActionClasses.lookup x.asStr = some "adding" ↔ x.rung = .autoBoundedOpenReseed := by
  rw [class_lookup]
  unfold Action.riskClass Action.rung
  cases x.reducing <;> decide

/-- A cycle is ready where every action that reduces what is at risk is let through. -/
theorem cycleReady_iff {c : AutonomousCycle} : cycleReady c = true ↔
    ∀ y : Action, y.reducing = true → autonomousActionPermitted c.mode c.phase y c.canary c.guard = true := by
  constructor
  · intro hready y hy
    exact permitted_mono hready (Or.inl hy) (Nat.le_refl _)
  · intro hall
    exact hall (.lp .claimFees) rfl

end

end WhaleIntelligence.Execution
