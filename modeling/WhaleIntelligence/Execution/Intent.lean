import Mathlib.Data.List.Nodup
import WhaleIntelligence.Lib.Walks

/- The intent domain: the states of an intent, its actions, and the kill switches.

   An intent moves along the edges of one table (`canTransitionTo`), and every edge
   raises its progress (`progress_lt`), so that no intent moves more than eight times
   and none comes back to a state it has left (`Walks.Walk.length_le`,
   `Walks.Walk.nodup`). It holds its reservation until it is terminal. -/
namespace WhaleIntelligence.Execution
open Walks

/-! ## States -/

/-- The states of an intent. -/
inductive IntentState where
  | proposed | approved | reserved | built | simulated | signed | submitted
  | confirmed | failedSafe | unknownReconciliation | cancelled
  deriving DecidableEq, Repr

namespace IntentState

/-- The name that a state has in the database. -/
def asStr : IntentState → String
  | proposed => "proposed"
  | approved => "approved"
  | reserved => "reserved"
  | built => "built"
  | simulated => "simulated"
  | signed => "signed"
  | submitted => "submitted"
  | confirmed => "confirmed"
  | failedSafe => "failed_safe"
  | unknownReconciliation => "unknown_reconciliation"
  | cancelled => "cancelled"

/-- The states, in the order in which the CHECK on `trade_intents.status` lists them. -/
def all : List IntentState :=
  [proposed, approved, reserved, built, simulated, signed, submitted, confirmed, failedSafe,
    unknownReconciliation, cancelled]

/-- The state of a name, `none` where the CHECK refuses it. -/
def parse (s : String) : Option IntentState := all.find? fun a => a.asStr == s

/-- Whether `next` is a legal transition from the state. -/
def canTransitionTo : IntentState → IntentState → Bool
  -- forward path
  | proposed, approved | approved, reserved | reserved, built | built, simulated | simulated, signed
  | signed, submitted | submitted, confirmed
  -- reject or cancel
  | proposed, cancelled | approved, cancelled
  -- fail closed
  | reserved, failedSafe | built, failedSafe | simulated, failedSafe | signed, failedSafe | submitted, failedSafe
  -- reconciliation
  | submitted, unknownReconciliation | unknownReconciliation, confirmed
  | unknownReconciliation, failedSafe | unknownReconciliation, cancelled => true
  | _, _ => false

def isTerminal : IntentState → Bool
  | confirmed | failedSafe | cancelled => true
  | _ => false

/-- How far an intent has come: every edge goes up. -/
def progress : IntentState → Nat
  | proposed => 0
  | approved => 1
  | reserved => 2
  | built => 3
  | simulated => 4
  | signed => 5
  | submitted => 6
  | unknownReconciliation => 7
  | confirmed | failedSafe | cancelled => 8

end IntentState

open IntentState

inductive ReservationAction where
  | hold | release
  deriving DecidableEq, Repr

def ReservationAction.asStr : ReservationAction → String
  | .hold => "hold"
  | .release => "release"

def reservationAction : IntentState → ReservationAction
  | confirmed | failedSafe | cancelled => .release
  | unknownReconciliation => .hold
  -- the forward path keeps the reservation
  | proposed | approved | reserved | built | simulated | signed | submitted => .hold

section
variable {a b s t : IntentState} {path : List IntentState}

theorem asStr_injective : Function.Injective IntentState.asStr := by
  intro a b h
  cases a <;> cases b <;> first | rfl | exact absurd h (by decide)

/-- A name is read back as its state. -/
theorem parse_eq_some {n : String} : IntentState.parse n = some a ↔ n = a.asStr := by
  refine ⟨fun h => ?_, fun h => ?_⟩
  · have hfound := List.find?_some h
    exact (beq_iff_eq.mp hfound).symm
  · subst h
    cases a <;> rfl

theorem progress_lt (h : a.canTransitionTo b = true) : a.progress < b.progress := by
  cases a <;> cases b <;> first | decide | exact absurd h (by decide)

theorem progress_le (a : IntentState) : a.progress ≤ 8 := by
  cases a <;> decide

theorem isTerminal_iff_progress : a.isTerminal = true ↔ a.progress = 8 := by
  cases a <;> decide

theorem isTerminal_iff_release : a.isTerminal = true ↔ reservationAction a = .release := by
  cases a <;> decide

/-- The walks of an intent. -/
abbrev Moves : IntentState → List IntentState → IntentState → Prop := Walk fun a b => a.canTransitionTo b = true

/-- A terminal state has no edge out of it. -/
theorem stop_of_terminal (h : a.isTerminal = true) : Stop (fun a b : IntentState => a.canTransitionTo b = true) a := by
  intro b hb
  have hup := progress_lt hb
  have htop := isTerminal_iff_progress.mp h
  have hle := progress_le b
  omega

/-- A state that is not terminal has an edge to one that is. -/
theorem exists_release (h : a.isTerminal = false) :
    ∃ b, a.canTransitionTo b = true ∧ b.isTerminal = true ∧ b ≠ confirmed := by
  cases a with
  | proposed | approved | unknownReconciliation => exact ⟨cancelled, by decide⟩
  | reserved | built | simulated | signed | submitted => exact ⟨failedSafe, by decide⟩
  | confirmed | failedSafe | cancelled => exact absurd h (by decide)

theorem moves_length (h : Moves s path t) : path.length + s.progress ≤ t.progress :=
  h.length_le fun _ _ => progress_lt

theorem moves_nodup (h : Moves s path t) : (s :: path).Nodup := h.nodup fun _ _ => progress_lt

/-- An edge to a state that is not terminal is a single step. -/
theorem progress_step (h : a.canTransitionTo b = true) (hb : b.isTerminal = false) :
    b.progress = a.progress + 1 := by
  cases a <;> cases b <;> first | decide | exact absurd h (by decide) | exact absurd hb (by decide)

/-- A walk that comes to a state that is not terminal has been in every state before it, in order. -/
theorem moves_climb (h : Moves s path t) (ht : t.isTerminal = false) :
    path.map progress = List.range' (s.progress + 1) (t.progress - s.progress) := by
  induction path generalizing s with
  | nil =>
    obtain rfl := walk_nil.mp h
    simp
  | cons u path ih =>
    obtain ⟨hfirst, hrest⟩ := walk_cons.mp h
    have hopen : u.isTerminal = false := by
      by_contra hu
      rw [Bool.not_eq_false] at hu
      obtain ⟨-, rfl⟩ := hrest.stopped (stop_of_terminal hu)
      rw [hu] at ht
      exact Bool.noConfusion ht
    have hnext := progress_step hfirst hopen
    have hlater := moves_length hrest
    have hcount : t.progress - s.progress = t.progress - u.progress + 1 := by omega
    rw [List.map_cons, ih hrest, hcount, List.range'_succ, hnext]

/-- The states up to the submission, in their order. -/
def IntentState.forward : List IntentState := [proposed, approved, reserved, built, simulated, signed, submitted]

theorem forward_get (h : a.progress ≤ 6) : forward[a.progress]? = some a := by
  cases a <;> first | rfl | exact absurd h (by decide)

/-- The only walk to the submission is the forward path from where the intent is. -/
theorem moves_forward (h : Moves s path submitted) : path = forward.drop (s.progress + 1) := by
  have hstages : path.map progress = List.range' (s.progress + 1) (6 - s.progress) := moves_climb h rfl
  have hladder : ∀ a ∈ path, forward[a.progress]? = some a := by
    intro a ha
    have hmem : a.progress ∈ List.range' (s.progress + 1) (6 - s.progress) := by
      rw [← hstages]
      exact List.mem_map_of_mem ha
    have hrange := List.mem_range'_1.mp hmem
    exact forward_get (by omega)
  have hall : (forward.drop (s.progress + 1)).length ≤ 6 - s.progress := by
    rw [List.length_drop]
    change 7 - (s.progress + 1) ≤ 6 - s.progress
    omega
  rw [eq_of_stages hstages hladder, List.take_of_length_le hall]

end

/-! ## Actions -/

inductive TradeAction where
  | buy | sell | partialSell | close | emergencyExit
  deriving DecidableEq, Repr

inductive LpAction where
  | openPosition | addLiquidity | claimFees | compoundFees | partialWithdraw | closePosition
  | reseedPosition | swapResiduals | emergencyExit
  deriving DecidableEq, Repr

/-- A token trade or a step of the liquidity autopilot. -/
inductive Action where
  | trade (a : TradeAction)
  | lp (a : LpAction)
  deriving DecidableEq, Repr

/-- The action of a text, in any of its three spellings. -/
def parseAction : String → Option Action
  | "buy" | "Buy" | "BUY" => some (.trade .buy)
  | "sell" | "Sell" | "SELL" => some (.trade .sell)
  | "partial_sell" | "PartialSell" | "PARTIAL_SELL" => some (.trade .partialSell)
  | "close" | "Close" | "CLOSE" => some (.trade .close)
  | "emergency_exit" | "EmergencyExit" | "EMERGENCY_EXIT" => some (.trade .emergencyExit)
  | "lp_emergency_exit" | "LpEmergencyExit" | "LP_EMERGENCY_EXIT" => some (.lp .emergencyExit)
  | "open_position" | "OpenPosition" | "OPEN_POSITION" => some (.lp .openPosition)
  | "add_liquidity" | "AddLiquidity" | "ADD_LIQUIDITY" => some (.lp .addLiquidity)
  | "claim_fees" | "ClaimFees" | "CLAIM_FEES" => some (.lp .claimFees)
  | "compound_fees" | "CompoundFees" | "COMPOUND_FEES" => some (.lp .compoundFees)
  | "partial_withdraw" | "PartialWithdraw" | "PARTIAL_WITHDRAW" => some (.lp .partialWithdraw)
  | "close_position" | "ClosePosition" | "CLOSE_POSITION" => some (.lp .closePosition)
  | "reseed_position" | "ReseedPosition" | "RESEED_POSITION" => some (.lp .reseedPosition)
  | "swap_residuals" | "SwapResiduals" | "SWAP_RESIDUALS" => some (.lp .swapResiduals)
  | _ => none

def isRiskReducing : TradeAction → Bool
  | .sell | .partialSell | .close | .emergencyExit => true
  | .buy => false

def isLpRiskReducing : LpAction → Bool
  | .claimFees | .partialWithdraw | .closePosition | .swapResiduals | .emergencyExit => true
  | _ => false

/-- An action that only reduces what is at risk. -/
def Action.reducing : Action → Bool
  | .trade a => isRiskReducing a
  | .lp a => isLpRiskReducing a

/-! ## Kill switches -/

inductive KillSwitchScope where
  | global | chain | wallet | strategy | protocol | sourceHealth | dailyLoss | signerLocal
  deriving DecidableEq, Repr

inductive KillSwitchMode where
  | halt | exitOnly
  deriving DecidableEq, Repr

structure KillSwitch where
  scope : KillSwitchScope
  scopeKey : Option String
  mode : KillSwitchMode
  active : Bool
  deriving DecidableEq, Repr

def isHalted (switches : List KillSwitch) : Bool := switches.any (·.active)

/-- Whether the active switches let a trade through: none of them halts, and any of them asks that the
trade reduces what is at risk. -/
def actionPermitted (switches : List KillSwitch) (action : TradeAction) : Bool :=
  let active := switches.filter (·.active)
  if active.isEmpty then true
  else if active.any (·.mode == .halt) then false
  else isRiskReducing action

section
variable {switches : List KillSwitch} {action : TradeAction}

theorem actionPermitted_iff : actionPermitted switches action = true ↔
    (∀ s ∈ switches, s.active = true → s.mode ≠ .halt) ∧ (isHalted switches = true → isRiskReducing action = true) := by
  have hactive : (switches.filter (·.active)).isEmpty = !isHalted switches := by
    rw [Bool.eq_iff_iff]
    simp [isHalted]
  have hhalt : (switches.filter (·.active)).any (·.mode == .halt) = true ↔
      ∃ s ∈ switches, s.active = true ∧ s.mode = .halt := by
    simp
  simp only [actionPermitted]
  rw [hactive]
  by_cases hany : isHalted switches = true
  · simp only [hany, Bool.not_true, Bool.false_eq_true, if_false, forall_const]
    split
    · next hstop =>
      obtain ⟨s, hs, hon, hmode⟩ := hhalt.mp hstop
      simp only [Bool.false_eq_true, false_iff, not_and]
      intro hnone
      exact absurd hmode (hnone s hs hon)
    · next hstop =>
      rw [hhalt] at hstop
      push Not at hstop
      exact ⟨fun h => ⟨hstop, h⟩, fun h => h.2⟩
  · rw [Bool.not_eq_true] at hany
    have hoff : ∀ s ∈ switches, s.active = true → s.mode ≠ .halt := by
      intro s hs hon
      simp only [isHalted, List.any_eq_false] at hany
      exact absurd hon (hany s hs)
    simpa [hany] using hoff

end

end WhaleIntelligence.Execution
