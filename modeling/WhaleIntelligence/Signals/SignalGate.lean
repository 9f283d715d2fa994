import Mathlib.Tactic.NormNum
import WhaleIntelligence.Lib.Rounding

/- The entry gate of the forge: `evaluate_entry_gate`.

   It is a second account of the gates of `evaluate_token_on`, over typed risk flags
   and rejection codes, with its thresholds as an argument and the completeness of the
   history as a binary64 number. A number that is not finite is not modelled. -/
namespace WhaleIntelligence.Sf
open Rounding

/-! ## Inputs -/

/-- A finite `f64`. -/
structure F64 where
  val : Rat
  isF64 : IsF64 val

inductive RejectionCode where
  | insufficientClusters | insufficientBuys | unsupportedLifecycle | tokenTooOld | insufficientLiquidity
  | criticalRisk | washRisk | staleMarket | ineligibleSkill | ineligibleCopyability | incompleteHistory
  deriving DecidableEq, Repr

/-- The code as it is serialised. -/
def RejectionCode.asStr : RejectionCode → String
  | .insufficientClusters => "insufficient_clusters"
  | .insufficientBuys => "insufficient_buys"
  | .unsupportedLifecycle => "unsupported_lifecycle"
  | .tokenTooOld => "token_too_old"
  | .insufficientLiquidity => "insufficient_liquidity"
  | .criticalRisk => "critical_risk"
  | .washRisk => "wash_risk"
  | .staleMarket => "stale_market"
  | .ineligibleSkill => "ineligible_skill"
  | .ineligibleCopyability => "ineligible_copyability"
  | .incompleteHistory => "incomplete_history"

inductive RiskFlag where
  | criticalRisk | washTrading | honeypot | rugged
  deriving DecidableEq, Repr

/-- The flag as it is serialised. -/
def RiskFlag.asStr : RiskFlag → String
  | .criticalRisk => "critical_risk"
  | .washTrading => "wash_trading"
  | .honeypot => "honeypot"
  | .rugged => "rugged"

inductive GateOutcome where
  | accepted
  | rejected (code : RejectionCode)
  deriving DecidableEq, Repr

structure GateThresholds where
  minEligibleClusters : Nat
  minMeaningfulBuys : Nat
  maxTokenAgeHours : Int
  minLiquidityUsd : Nat
  maxMarketAgeSeconds : Int
  minSkill : Nat
  minCopyability : Nat
  minHistoryCompleteness : F64

/-- The literal `0.80`. -/
def fourFifths : F64 := ⟨7205759403792794 / 9007199254740992, 7205759403792794, -53, by decide, by decide, by decide,
  by norm_num⟩

def GateThresholds.default : GateThresholds := ⟨2, 2, 24, 20000, 300, 70, 60, fourFifths⟩

structure EntryGateInput where
  eligibleClusters : Nat
  meaningfulBuys : Nat
  lifecycleSupported : Bool
  tokenAgeHours : Option Int
  liquidityUsd : Option Nat
  riskFlags : List RiskFlag
  marketAgeSeconds : Option Int
  maxSkill : Nat
  maxCopyability : Nat
  minHistoryCompleteness : F64

/-! ## The gate -/

/-- A value is there and passes. -/
def known {α : Type} (value : Option α) (passes : α → Bool) : Bool := value.any passes

/-- `evaluate_entry_gate`. -/
def evaluateEntryGate (input : EntryGateInput) (t : GateThresholds) : GateOutcome :=
  if input.eligibleClusters < t.minEligibleClusters then .rejected .insufficientClusters
  else if input.meaningfulBuys < t.minMeaningfulBuys then .rejected .insufficientBuys
  else if !input.lifecycleSupported then .rejected .unsupportedLifecycle
  else if !known input.tokenAgeHours (fun age => age ≤ t.maxTokenAgeHours) then .rejected .tokenTooOld
  else if !known input.liquidityUsd (fun l => t.minLiquidityUsd ≤ l) then .rejected .insufficientLiquidity
  else if input.riskFlags.contains .washTrading then .rejected .washRisk
  else if input.riskFlags.any (fun f => f == .criticalRisk || f == .honeypot || f == .rugged) then
    .rejected .criticalRisk
  else if !known input.marketAgeSeconds (fun a => a ≤ t.maxMarketAgeSeconds) then .rejected .staleMarket
  else if input.maxSkill < t.minSkill then .rejected .ineligibleSkill
  else if input.maxCopyability < t.minCopyability then .rejected .ineligibleCopyability
  else if input.minHistoryCompleteness.val < t.minHistoryCompleteness.val then .rejected .incompleteHistory
  else .accepted

/-- The code of a rejection. -/
def GateOutcome.code : GateOutcome → Option String
  | .accepted => none
  | .rejected code => some code.asStr

/-- What is less than half a step below 0.80, rounds to the binary64 number of 0.80. -/
theorem fourFifths_nearest {q : Rat} (hlow : 4 / 5 - 1 / 2 ^ 60 ≤ q) (hhigh : q ≤ 4 / 5) :
    OnlyNearest {g | IsF64 g} q fourFifths.val := by
  have hval : fourFifths.val = ((7205759403792794 : Int) : Rat) * 2 ^ (-53 : Int) := by norm_num [fourFifths]
  rw [hval]
  refine only_nearest (hval ▸ fourFifths.isF64) ?_ ?_
  · rw [abs_lt]
    norm_num at hlow hhigh ⊢
    constructor <;> linarith
  · norm_num at hlow ⊢
    linarith

end WhaleIntelligence.Sf
