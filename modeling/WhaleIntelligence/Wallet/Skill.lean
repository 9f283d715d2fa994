import WhaleIntelligence.Chains.Normalize
import WhaleIntelligence.Lib.FixedValue

/- The scores of a wallet: `skill_score`, `copyability_score` and `compute_wallet_score`.

   The rates are decimals, and every operation on them rounds; `none` is an operation
   that overflows, which panics. The skill is a weighted sum of clamped rates. It is
   computed for every win rate that a row can hold, and is the whole part of the exact
   sum up to an error of the roundings (`skillScore_near`). The copyability is a hundred
   less the penalties, and the conviction is the mean of the two (`computeWalletScore_near`).
   What makes a wallet easier to copy never lowers its score (`computeWalletScore_mono`). -/
namespace WhaleIntelligence.Wallet.Scoring
open WhaleIntelligence FixedPoint Fixed
open WhaleIntelligence.Chains (Decimal)

/-! ## Inputs -/

structure ScoringConfig where
  minMeaningfulTrades : Nat
  minTokensTraded : Nat
  fullSkillScore : Nat
  fullCopyabilityScore : Nat
  /-- The decimal of the text of the number, if it has one. -/
  historyCompletenessFloor : Option Decimal
  convictionCapBelowCompleteness : Nat
  deriving DecidableEq, Repr

structure ScoreInputs where
  meaningfulTrades : Nat
  tokensTraded : Nat
  realizedPnlUsd : Rat
  sizeWeightedRoi : Decimal
  meaningfulWinRate : Decimal
  earlyEntryRate : Decimal
  historyCompleteness : Decimal
  mevLikelihood : Decimal
  avgHoldSeconds : Option Int
  gmgnAgreement : Option Decimal
  liquidityAvailable : Option Decimal
  deriving DecidableEq, Repr

/-- `Decimal::from` of an integer. -/
def decimalFrom (n : Int) : Option Decimal := ofInt n

/-- A whole number has no places. -/
theorem whole_scaled : 0 ≤ 28 := Nat.zero_le 28

def zero : Decimal := ⟨0, 0, by decide, whole_scaled⟩

def half : Decimal := ⟨5, 1, by decide, by decide⟩

/-- `default_completeness_floor`, as a decimal. -/
def defaultCompletenessFloor : Decimal := ⟨8, 1, by decide, by decide⟩

/-- `ScoringConfig::default`. -/
def defaultScoring : ScoringConfig where
  minMeaningfulTrades := 20
  minTokensTraded := 5
  fullSkillScore := 70
  fullCopyabilityScore := 60
  historyCompletenessFloor := some defaultCompletenessFloor
  convictionCapBelowCompleteness := 49

/-! ## Skill -/

/-- `normalize_ratio`. -/
def normalizeRatio (value : Decimal) : Option Decimal := do
  let clamped := value.clamp (← decimalFrom (-1)) (← decimalFrom 5)
  (← clamped.add Chains.Decimal.one).div (← decimalFrom 6)

def roiComponent (inputs : ScoreInputs) : Option Decimal := do
  (← normalizeRatio inputs.sizeWeightedRoi).mul (← decimalFrom 30)

/-- A rate from zero to one, times its weight. -/
def rateComponent (rate : Decimal) (weight : Nat) : Option Decimal := do
  (rate.clamp zero Chains.Decimal.one).mul (← decimalFrom weight)

/-- One less the distance of the win rate from a half. -/
def consistencyComponent (inputs : ScoreInputs) : Option Decimal := do
  let consistency ← Chains.Decimal.one.sub (← inputs.meaningfulWinRate.sub half).abs
  rateComponent consistency 10

def sampleComponent (inputs : ScoreInputs) : Option Decimal := do
  let sample ← (← decimalFrom (min inputs.meaningfulTrades 50 : Nat)).div (← decimalFrom 50)
  sample.mul (← decimalFrom 10)

def total (roi win early consistency sample agreement : Decimal) : Option Decimal := do
  (← (← (← (← roi.add win).add early).add consistency).add sample).add agreement

/-- `skill_score`. -/
def skillScore (inputs : ScoreInputs) : Option Nat := do
  let roi ← roiComponent inputs
  let win ← rateComponent inputs.meaningfulWinRate 20
  let early ← rateComponent inputs.earlyEntryRate 15
  let consistency ← consistencyComponent inputs
  let sample ← sampleComponent inputs
  let agreement ← rateComponent (inputs.gmgnAgreement.getD half) 15
  let total ← total roi win early consistency sample agreement
  return (total.clamp zero (← decimalFrom 100)).toU32.getD 0

/-! ## Copyability -/

structure CopyabilityPenalties where
  holdPenalty : Nat
  liquidityPenalty : Nat
  driftPenalty : Nat
  sellRacePenalty : Nat
  botPenalty : Nat
  deriving DecidableEq, Repr

def holdPenalty (inputs : ScoreInputs) : Nat :=
  match inputs.avgHoldSeconds with
  | some hold => if hold ≤ 5 then 60 else if hold ≤ 60 then 30 else if hold ≤ 300 then 10 else 0
  | none => 0

def liquidityPenalty (inputs : ScoreInputs) : Nat :=
  match inputs.liquidityAvailable with
  | some liquidity => if liquidity.value < 10000 then 25 else if liquidity.value < 50000 then 10 else 0
  | none => 0

def driftPenalty (inputs : ScoreInputs) : Nat :=
  if 4 / 5 ≤ inputs.mevLikelihood.value then 25 else if 1 / 2 ≤ inputs.mevLikelihood.value then 10 else 0

def sellRacePenalty (inputs : ScoreInputs) : Nat :=
  match inputs.avgHoldSeconds with
  | some hold => if hold ≤ 5 then 15 else 0
  | none => 0

def botPenalty (inputs : ScoreInputs) : Nat := if 9 / 10 ≤ inputs.mevLikelihood.value then 30 else 0

def CopyabilityPenalties.total (p : CopyabilityPenalties) : Nat :=
  p.holdPenalty + p.liquidityPenalty + p.driftPenalty + p.sellRacePenalty + p.botPenalty

/-- `copyability_score`. -/
def copyabilityScore (inputs : ScoreInputs) : Nat × CopyabilityPenalties :=
  let penalties : CopyabilityPenalties :=
    ⟨holdPenalty inputs, liquidityPenalty inputs, driftPenalty inputs, sellRacePenalty inputs, botPenalty inputs⟩
  ((max 0 (min (100 - (penalties.total : Int)) 100)).toNat, penalties)

/-! ## The result -/

structure WalletScoreResult where
  skill : Nat
  copyability : Nat
  conviction : Nat
  provisional : Bool
  historyCompleteness : Decimal
  penalties : CopyabilityPenalties
  deriving DecidableEq, Repr

/-- The whole part of the mean of the two scores. -/
def baseConviction (skill copyability : Nat) : Option Nat := do
  let mean ← (← (← decimalFrom skill).add (← decimalFrom copyability)).div (← decimalFrom 2)
  return mean.toU32.getD 0

/-- Too little of the history is known. -/
def belowFloor (inputs : ScoreInputs) (config : ScoringConfig) : Bool :=
  inputs.historyCompleteness.value < (config.historyCompletenessFloor.getD defaultCompletenessFloor).value

/-- `compute_wallet_score`. -/
def computeWalletScore (inputs : ScoreInputs) (config : ScoringConfig) : Option WalletScoreResult := do
  let skill ← skillScore inputs
  let (copyability, penalties) := copyabilityScore inputs
  let provisional :=
    inputs.meaningfulTrades < config.minMeaningfulTrades || inputs.tokensTraded < config.minTokensTraded
  let base ← baseConviction skill copyability
  let conviction := if belowFloor inputs config then min base config.convictionCapBelowCompleteness else min base 100
  return ⟨skill, copyability, conviction, provisional, inputs.historyCompleteness, penalties⟩

/-- `full_entry_eligible`. -/
def fullEntryEligible (result : WalletScoreResult) (config : ScoringConfig) : Bool :=
  config.fullSkillScore ≤ result.skill && config.fullCopyabilityScore ≤ result.copyability && !result.provisional

/-! ## Errors -/

section
variable {a b : Decimal} {e e' p q : Rat}

/-- Up to 792 a decimal has 26 digits after the point. -/
theorem room : 792 * 10 ^ 26 < 2 ^ 96 := by norm_num

theorem halfStep_le : halfStep 26 ≤ 1 / 10 ^ 26 := by
  rw [halfStep]
  norm_num

@[simp] theorem zero_value : zero.value = 0 := by simp [zero, value]

@[simp] theorem one_value : Chains.Decimal.one.value = 1 := by simp [Chains.Decimal.one, value]

@[simp] theorem half_value : half.value = 1 / 2 := by norm_num [half, value]

theorem whole {n : Int} (h : n.natAbs ≤ 1000) : ∃ a : Decimal, decimalFrom n = some a ∧ a.value = n :=
  ofInt_fits (lt_of_le_of_lt h (by norm_num))

theorem decimal_add (ha : Near e a p) (hb : Near e' b q) (hfit : |p + q| + (e + e') ≤ 792) :
    ∃ c, a.add b = some c ∧ Near (e + e' + 1 / 10 ^ 26) c (p + q) := by
  obtain ⟨c, hc, hnear⟩ := add_near (k := 26) (m := 792) (by omega) room ha hb (by exact_mod_cast hfit)
  exact ⟨c, hc, near_mono hnear (by linarith [halfStep_le])⟩

theorem decimal_sub (ha : Near e a p) (hb : Near e' b q) (hfit : |p - q| + (e + e') ≤ 792) :
    ∃ c, a.sub b = some c ∧ Near (e + e' + 1 / 10 ^ 26) c (p - q) := by
  obtain ⟨c, hc, hnear⟩ := sub_near (k := 26) (m := 792) (by omega) room ha hb (by exact_mod_cast hfit)
  exact ⟨c, hc, near_mono hnear (by linarith [halfStep_le])⟩

theorem decimal_mul (ha : Near e a p) (hb : b.value = q) (hfit : |p * q| + e * |q| ≤ 792) :
    ∃ c, a.mul b = some c ∧ Near (e * |q| + 1 / 10 ^ 26) c (p * q) := by
  obtain ⟨c, hc, hnear⟩ := mul_near (k := 26) (m := 792) (by omega) room ha hb (by exact_mod_cast hfit)
  exact ⟨c, hc, near_mono hnear (by linarith [halfStep_le])⟩

theorem decimal_div (ha : Near e a p) (hb : b.value = q) (hq : q ≠ 0) (hfit : |p / q| + e / |q| ≤ 792) :
    ∃ c, a.div b = some c ∧ Near (e / |q| + 1 / 10 ^ 26) c (p / q) := by
  obtain ⟨c, hc, hnear⟩ := div_near (k := 26) (m := 792) (by omega) room ha hb hq (by exact_mod_cast hfit)
  exact ⟨c, hc, near_mono hnear (by linarith [halfStep_le])⟩

end

/-! ## The weighted sum -/

/-- A rate from zero to one. -/
def unit (q : Rat) : Rat := max 0 (min q 1)

/-- What the skill stands for, without roundings. -/
def ScoreInputs.weighted (inputs : ScoreInputs) : Rat :=
  (max (-1) (min inputs.sizeWeightedRoi.value 5) + 1) / 6 * 30 + unit inputs.meaningfulWinRate.value * 20 +
    unit inputs.earlyEntryRate.value * 15 + unit (1 - |inputs.meaningfulWinRate.value - 1 / 2|) * 10 +
    (min inputs.meaningfulTrades 50 : Nat) / 50 * 10 + unit (inputs.gmgnAgreement.getD half).value * 15

/-- The number is computed, and is close to the exact value. -/
def Computes (x : Option Decimal) (q : Rat) : Prop := ∃ c, x = some c ∧ Near (1 / 10 ^ 22) c q

theorem unit_bounds (q : Rat) : 0 ≤ unit q ∧ unit q ≤ 1 := by
  rw [unit]
  constructor
  · exact le_max_left _ _
  · exact max_le (by norm_num) (min_le_right _ _)

theorem unit_mono {p q : Rat} (h : p ≤ q) : unit p ≤ unit q := max_le_max (le_refl _) (min_le_min h (le_refl _))

theorem unit_eq {q : Rat} (hlow : 0 ≤ q) (hhigh : q ≤ 1) : unit q = q := by
  rw [unit, min_eq_left hhigh, max_eq_right hlow]

/-- The win rate counts for itself and for its consistency, which falls where it is high. -/
theorem win_bounds (w : Rat) : unit w * 20 + unit (1 - |w - 1 / 2|) * 10 ≤ 25 ∧
    (∀ d, 0 ≤ d → d ≤ 1 / 2 → -d ≤ w → 5 - 10 * d ≤ unit w * 20 + unit (1 - |w - 1 / 2|) * 10) := by
  have hwin := unit_bounds w
  have hconsistency := unit_bounds (1 - |w - 1 / 2|)
  have hmiddle : unit (1 / 2) = 1 / 2 := unit_eq (by norm_num) (by norm_num)
  rcases le_total w (1 / 2) with hw | hw
  · have hhalf : unit w ≤ 1 / 2 := (unit_mono hw).trans hmiddle.le
    refine ⟨by linarith, fun d hd hd' hpos => ?_⟩
    have hnear : unit (1 / 2 - d) ≤ unit (1 - |w - 1 / 2|) := by
      apply unit_mono
      rw [abs_of_nonpos (by linarith)]
      linarith
    rw [unit_eq (by linarith) (by linarith)] at hnear
    linarith
  · have habs : |w - 1 / 2| = w - 1 / 2 := abs_of_nonneg (by linarith)
    have hhalf : 1 / 2 ≤ unit w := hmiddle.ge.trans (unit_mono hw)
    refine ⟨?_, fun d hd _ _ => by linarith⟩
    rcases le_total w 1 with hone | hone
    · rw [unit_eq (by linarith) hone, habs, unit_eq (by linarith) (by linarith)]
      linarith
    · have hfar : unit (1 - |w - 1 / 2|) ≤ unit (1 / 2) := by
        apply unit_mono
        rw [habs]
        linarith
      linarith

section
variable {inputs : ScoreInputs}

theorem roiComponent_computes (inputs : ScoreInputs) :
    Computes (roiComponent inputs) ((max (-1) (min inputs.sizeWeightedRoi.value 5) + 1) / 6 * 30) := by
  obtain ⟨low, hlow, lowValue⟩ := whole (n := -1) (by decide)
  obtain ⟨high, hhigh, highValue⟩ := whole (n := 5) (by decide)
  obtain ⟨six, hsix, sixValue⟩ := whole (n := 6) (by decide)
  obtain ⟨thirty, hthirty, thirtyValue⟩ := whole (n := 30) (by decide)
  have hclamp : Near 0 (inputs.sizeWeightedRoi.clamp low high)
      (max (-1) (min inputs.sizeWeightedRoi.value 5)) := by
    have h := clamp_near (near_self inputs.sizeWeightedRoi) (show low.value ≤ high.value by
      rw [lowValue, highValue]; norm_num)
    rw [lowValue, highValue] at h
    exact_mod_cast h
  have hge : -1 ≤ max (-1) (min inputs.sizeWeightedRoi.value 5) := le_max_left _ _
  have hle : max (-1) (min inputs.sizeWeightedRoi.value 5) ≤ 5 := max_le (by norm_num) (min_le_right _ _)
  generalize max (-1) (min inputs.sizeWeightedRoi.value 5) = r at hclamp hge hle
  have habs : |r + 1| ≤ 6 := abs_le.mpr ⟨by linarith, by linarith⟩
  obtain ⟨s, hs, hnear⟩ := decimal_add hclamp (near_self Chains.Decimal.one) (by rw [one_value]; linarith)
  rw [one_value] at hnear
  have hdiv : |(r + 1) / 6| ≤ 1 := by
    rw [abs_div, abs_of_pos (by norm_num : (0 : Rat) < 6)]
    linarith
  obtain ⟨d, hd, hnear'⟩ := decimal_div hnear (show six.value = 6 by exact_mod_cast sixValue) (by norm_num)
    (by norm_num at hdiv ⊢; linarith)
  obtain ⟨c, hc, hnear''⟩ := decimal_mul hnear' (show thirty.value = 30 by exact_mod_cast thirtyValue)
    (by rw [abs_mul]; norm_num at hdiv ⊢; linarith)
  refine ⟨c, ?_, near_mono hnear'' (by norm_num)⟩
  simp [roiComponent, normalizeRatio, hlow, hhigh, hsix, hthirty, hs, hd, hc]

theorem rateComponent_near {e : Rat} {rate : Decimal} {q : Rat} (weight : Nat) (h : Near e rate q) (he : e ≤ 1)
    (hweight : weight ≤ 20) :
    ∃ c, rateComponent rate weight = some c ∧ Near (e * weight + 1 / 10 ^ 26) c (unit q * weight) := by
  obtain ⟨w, hw, wValue⟩ := whole (n := weight) (by rw [Int.natAbs_natCast]; omega)
  have hclamp : Near e (rate.clamp zero Chains.Decimal.one) (unit q) := by
    have hbound := clamp_near h (show zero.value ≤ Chains.Decimal.one.value by simp)
    rwa [zero_value, one_value] at hbound
  have hweight' : (weight : Rat) ≤ 20 := by exact_mod_cast hweight
  have hnonneg : (0 : Rat) ≤ weight := Nat.cast_nonneg _
  have habs : |(weight : Rat)| = weight := abs_of_nonneg hnonneg
  obtain ⟨hlow, hhigh⟩ := unit_bounds q
  have hproduct : |unit q * weight| ≤ 20 := by
    rw [abs_of_nonneg (mul_nonneg hlow hnonneg)]
    calc unit q * weight ≤ 1 * 20 := mul_le_mul hhigh hweight' hnonneg (by norm_num)
      _ = 20 := by norm_num
  have herror : e * weight ≤ 20 := by
    calc e * weight ≤ 1 * 20 := mul_le_mul he hweight' hnonneg (by norm_num)
      _ = 20 := by norm_num
  obtain ⟨c, hc, hnear⟩ := decimal_mul hclamp (show w.value = (weight : Rat) by exact_mod_cast wValue)
    (by rw [habs]; linarith)
  rw [habs] at hnear
  exact ⟨c, by simp [rateComponent, hw, hc], hnear⟩

/-- A rate that is known exactly. -/
theorem rateComponent_computes (rate : Decimal) (weight : Nat) (hweight : weight ≤ 20) :
    Computes (rateComponent rate weight) (unit rate.value * weight) := by
  obtain ⟨c, hc, hnear⟩ := rateComponent_near weight (near_self rate) (by norm_num) hweight
  exact ⟨c, hc, near_mono hnear (by norm_num)⟩

theorem consistencyComponent_computes (hrate : |inputs.meaningfulWinRate.value| ≤ 100) :
    Computes (consistencyComponent inputs) (unit (1 - |inputs.meaningfulWinRate.value - 1 / 2|) * 10) := by
  have hsub : |inputs.meaningfulWinRate.value - 1 / 2| ≤ 101 := by
    obtain ⟨hlow, hhigh⟩ := abs_le.mp hrate
    exact abs_le.mpr ⟨by linarith, by linarith⟩
  obtain ⟨d, hd, hnear⟩ := decimal_sub (near_self inputs.meaningfulWinRate) (near_self half)
    (by rw [half_value]; linarith)
  rw [half_value] at hnear
  have hone : |1 - (|inputs.meaningfulWinRate.value - 1 / 2|)| ≤ 102 := by
    have := abs_nonneg (inputs.meaningfulWinRate.value - 1 / 2)
    exact abs_le.mpr ⟨by linarith, by linarith⟩
  obtain ⟨k, hk, hnear'⟩ := decimal_sub (near_self Chains.Decimal.one) (abs_near hnear) (by rw [one_value]; linarith)
  rw [one_value] at hnear'
  obtain ⟨c, hc, hnear''⟩ := rateComponent_near 10 hnear' (by norm_num) (by omega)
  refine ⟨c, ?_, near_mono hnear'' (by norm_num)⟩
  simp [consistencyComponent, hd, hk, hc]

theorem sampleComponent_computes (inputs : ScoreInputs) :
    Computes (sampleComponent inputs) ((min inputs.meaningfulTrades 50 : Nat) / 50 * 10) := by
  have hsmall : min inputs.meaningfulTrades 50 ≤ 50 := Nat.min_le_right _ _
  rw [sampleComponent]
  generalize min inputs.meaningfulTrades 50 = n at hsmall
  obtain ⟨trades, htrades, tradesValue⟩ := whole (n := n) (by rw [Int.natAbs_natCast]; omega)
  obtain ⟨fifty, hfifty, fiftyValue⟩ := whole (n := 50) (by decide)
  obtain ⟨ten, hten, tenValue⟩ := whole (n := 10) (by decide)
  have hsmall' : (n : Rat) ≤ 50 := by exact_mod_cast hsmall
  have hnonneg : (0 : Rat) ≤ n := Nat.cast_nonneg _
  have hshare : |(n : Rat) / 50| ≤ 1 := by
    rw [abs_of_nonneg (by positivity), div_le_one (by norm_num)]
    exact hsmall'
  have htrades' : Near 0 trades (n : Rat) := by
    have hself := near_self trades
    rw [tradesValue] at hself
    exact_mod_cast hself
  obtain ⟨d, hd, hnear⟩ := decimal_div htrades' (show fifty.value = 50 by exact_mod_cast fiftyValue) (by norm_num)
    (by norm_num at hshare ⊢; linarith)
  obtain ⟨c, hc, hnear'⟩ := decimal_mul hnear (show ten.value = 10 by exact_mod_cast tenValue)
    (by rw [abs_mul]; norm_num at hshare ⊢; linarith)
  refine ⟨c, ?_, near_mono hnear' (by norm_num)⟩
  simp [htrades, hfifty, hten, hd, hc]

/-- The weights are of a hundred, but no win rate has all of its two. -/
theorem weighted_bounds (inputs : ScoreInputs) : 0 ≤ inputs.weighted ∧ inputs.weighted ≤ 95 := by
  have hlow : -1 ≤ max (-1) (min inputs.sizeWeightedRoi.value 5) := le_max_left _ _
  have hhigh : max (-1) (min inputs.sizeWeightedRoi.value 5) ≤ 5 := max_le (by norm_num) (min_le_right _ _)
  have hearly := unit_bounds inputs.earlyEntryRate.value
  have hagreement := unit_bounds (inputs.gmgnAgreement.getD half).value
  have htrades : ((min inputs.meaningfulTrades 50 : Nat) : Rat) ≤ 50 := by exact_mod_cast Nat.min_le_right _ _
  have hnonneg : (0 : Rat) ≤ (min inputs.meaningfulTrades 50 : Nat) := Nat.cast_nonneg _
  have hwin := unit_bounds inputs.meaningfulWinRate.value
  have hconsistency := unit_bounds (1 - |inputs.meaningfulWinRate.value - 1 / 2|)
  have hrates := (win_bounds inputs.meaningfulWinRate.value).1
  rw [ScoreInputs.weighted]
  constructor <;> linarith

/-- Six numbers that are close to parts of a hundred add up closely. -/
theorem total_computes {x y z u v w : Decimal} {p q r s t o : Rat} (hx : Near (1 / 10 ^ 22) x p)
    (hy : Near (1 / 10 ^ 22) y q) (hz : Near (1 / 10 ^ 22) z r) (hu : Near (1 / 10 ^ 22) u s)
    (hv : Near (1 / 10 ^ 22) v t) (hw : Near (1 / 10 ^ 22) w o) (hp : 0 ≤ p ∧ p ≤ 100) (hq : 0 ≤ q ∧ q ≤ 100)
    (hr : 0 ≤ r ∧ r ≤ 100) (hs : 0 ≤ s ∧ s ≤ 100) (ht : 0 ≤ t ∧ t ≤ 100) (ho : 0 ≤ o ∧ o ≤ 100) :
    ∃ c, total x y z u v w = some c ∧ Near (1 / 10 ^ 20) c (p + q + r + s + t + o) := by
  obtain ⟨a, ha, na⟩ := decimal_add hx hy (by rw [abs_of_nonneg (by linarith)]; norm_num; linarith)
  obtain ⟨b, hb, nb⟩ := decimal_add na hz (by rw [abs_of_nonneg (by linarith)]; norm_num; linarith)
  obtain ⟨c, hc, nc⟩ := decimal_add nb hu (by rw [abs_of_nonneg (by linarith)]; norm_num; linarith)
  obtain ⟨d, hd, nd⟩ := decimal_add nc hv (by rw [abs_of_nonneg (by linarith)]; norm_num; linarith)
  obtain ⟨e, he, ne⟩ := decimal_add nd hw (by rw [abs_of_nonneg (by linarith)]; norm_num; linarith)
  exact ⟨e, by simp [total, ha, hb, hc, hd, he], near_mono ne (by norm_num)⟩

/-- The skill is computed, and is the whole part of the weighted sum up to the error of the roundings. -/
theorem skillScore_near (inputs : ScoreInputs) (hrate : |inputs.meaningfulWinRate.value| ≤ 100) :
    ∃ n, skillScore inputs = some n ∧ (n : Rat) ≤ inputs.weighted + 1 / 10 ^ 20 ∧
      inputs.weighted < n + 1 + 1 / 10 ^ 20 := by
  obtain ⟨roi, hroi, nroi⟩ := roiComponent_computes inputs
  obtain ⟨win, hwin, nwin⟩ := rateComponent_computes inputs.meaningfulWinRate 20 (by omega)
  obtain ⟨early, hearly, nearly⟩ := rateComponent_computes inputs.earlyEntryRate 15 (by omega)
  obtain ⟨consistency, hconsistency, nconsistency⟩ := consistencyComponent_computes hrate
  obtain ⟨sample, hsample, nsample⟩ := sampleComponent_computes inputs
  obtain ⟨agreement, hagreement, nagreement⟩ :=
    rateComponent_computes (inputs.gmgnAgreement.getD half) 15 (by omega)
  obtain ⟨hundred, hhundred, hundredValue⟩ := whole (n := 100) (by decide)
  have hroiLow : -1 ≤ max (-1) (min inputs.sizeWeightedRoi.value 5) := le_max_left _ _
  have hroiHigh : max (-1) (min inputs.sizeWeightedRoi.value 5) ≤ 5 := max_le (by norm_num) (min_le_right _ _)
  have htrades : ((min inputs.meaningfulTrades 50 : Nat) : Rat) ≤ 50 := by exact_mod_cast Nat.min_le_right _ _
  have hnonneg : (0 : Rat) ≤ (min inputs.meaningfulTrades 50 : Nat) := Nat.cast_nonneg _
  have hscaled : ∀ (q : Rat) (weight : Nat), weight ≤ 20 → 0 ≤ unit q * weight ∧ unit q * weight ≤ 100 := by
    intro q weight hweight
    have hweight' : (weight : Rat) ≤ 20 := by exact_mod_cast hweight
    obtain ⟨hlow, hhigh⟩ := unit_bounds q
    refine ⟨by positivity, ?_⟩
    calc unit q * weight ≤ 1 * 20 := mul_le_mul hhigh hweight' (Nat.cast_nonneg _) (by norm_num)
      _ ≤ 100 := by norm_num
  obtain ⟨sum, hsum, nsum⟩ := total_computes nroi nwin nearly nconsistency nsample nagreement
    ⟨by linarith, by linarith⟩ (hscaled _ _ (by omega)) (hscaled _ _ (by omega)) (hscaled _ 10 (by omega))
    ⟨by linarith, by linarith⟩ (hscaled _ _ (by omega))
  have hnear : Near (1 / 10 ^ 20) sum inputs.weighted := by
    rw [ScoreInputs.weighted]
    exact_mod_cast nsum
  obtain ⟨hlow, hhigh⟩ := near_bounds hnear
  obtain ⟨hweightedLow, hweightedHigh⟩ := weighted_bounds inputs
  have hundredValue' : hundred.value = 100 := by exact_mod_cast hundredValue
  have hclamp : (sum.clamp zero hundred).value = max 0 sum.value := by
    rw [clamp_value (by rw [zero_value, hundredValue']; norm_num), zero_value, hundredValue',
      min_eq_left (by norm_num at hhigh ⊢; linarith)]
  obtain ⟨n, hn, hfloor, hceil⟩ := toU32_floor (a := sum.clamp zero hundred)
    (by rw [hclamp]; exact le_max_left _ _)
    (by rw [hclamp]; exact max_lt (by norm_num) (by norm_num at hhigh ⊢; linarith))
  rw [hclamp] at hfloor hceil
  refine ⟨n, ?_, ?_, ?_⟩
  · simp [skillScore, hroi, hwin, hearly, hconsistency, hsample, hagreement, hsum, hhundred, hn]
  · exact hfloor.trans (max_le (by norm_num; linarith) hhigh)
  · have := le_max_right 0 sum.value
    linarith

end

/-! ## Conviction -/

theorem copyabilityScore_le (inputs : ScoreInputs) : (copyabilityScore inputs).1 ≤ 100 := by
  have h : max 0 (min (100 - ((copyabilityScore inputs).2.total : Int)) 100) ≤ 100 := by omega
  exact Int.toNat_le.mpr h

/-- The mean of two scores is rounded down. -/
theorem baseConviction_eq {s c : Nat} (hs : s ≤ 100) (hc : c ≤ 100) : baseConviction s c = some ((s + c) / 2) := by
  have hfits : ∀ n : Nat, n ≤ 100 → (n : Int).natAbs < 2 ^ 96 := by
    intro n hn
    rw [Int.natAbs_natCast]
    omega
  have hfrom : ∀ (n : Nat) (hn : n ≤ 100), decimalFrom n = some ⟨n, 0, hfits n hn, by omega⟩ := fun n hn =>
    dif_pos (hfits n hn)
  have htwo : decimalFrom 2 = some ⟨2, 0, by decide, by decide⟩ := rfl
  have hvalue : ∀ (n : Int) h h', (⟨n, 0, h, h'⟩ : Decimal).value = n := by
    intro n h h'
    simp [value]
  have hsum : ((s : Rat) + c) ≤ 200 := by exact_mod_cast (by omega : s + c ≤ 200)
  have hnonneg : (0 : Rat) ≤ (s : Rat) + c := by positivity
  obtain ⟨sum, hsum', sumValue⟩ := add_exactly (k := 26) (m := 792) (by omega) room
    (a := ⟨s, 0, hfits s hs, by omega⟩) (b := (⟨c, 0, hfits c hc, by omega⟩ : Decimal)) (by simp)
    (by rw [hvalue, hvalue, abs_of_nonneg (by exact_mod_cast hnonneg)]; norm_num; linarith)
  rw [hvalue, hvalue] at sumValue
  obtain ⟨mean, hmean, meanValue⟩ := div_exactly (k := 26) (m := 792) (by omega) room
    (a := sum) (b := (⟨2, 0, by decide, by decide⟩ : Decimal)) (by decide) (by
      rw [sumValue, hvalue]
      norm_num
      rw [abs_of_nonneg (by positivity)]
      linarith) ((s + c) * (5 * 10 ^ 25)) (by
      rw [sumValue, hvalue]
      push_cast
      ring)
  rw [sumValue, hvalue] at meanValue
  norm_num at meanValue
  obtain ⟨n, hn, hfloor, hceil⟩ := toU32_floor (a := mean) (by rw [meanValue]; positivity)
    (by rw [meanValue]; norm_num; linarith)
  have hwhole : n = (s + c) / 2 := by
    rw [meanValue] at hfloor hceil
    have hfloor' : 2 * n ≤ s + c := by
      have : (2 : Rat) * n ≤ s + c := by linarith
      exact_mod_cast this
    have hceil' : s + c < 2 * n + 2 := by
      have : (s : Rat) + c < 2 * n + 2 := by linarith
      exact_mod_cast this
    omega
  simp [baseConviction, hfrom s hs, hfrom c hc, htwo, hsum', hmean, hn, hwhole]

/-- The result of a wallet whose skill is computed. -/
theorem computeWalletScore_eq {i : ScoreInputs} (hrate : |i.meaningfulWinRate.value| ≤ 100) (config : ScoringConfig) :
    ∃ n, skillScore i = some n ∧ n ≤ 95 ∧ computeWalletScore i config = some
      { skill := n
        copyability := (copyabilityScore i).1
        conviction := if belowFloor i config then
            min ((n + (copyabilityScore i).1) / 2) config.convictionCapBelowCompleteness
          else min ((n + (copyabilityScore i).1) / 2) 100
        provisional := i.meaningfulTrades < config.minMeaningfulTrades || i.tokensTraded < config.minTokensTraded
        historyCompleteness := i.historyCompleteness
        penalties := (copyabilityScore i).2 } := by
  obtain ⟨n, hn, hle, -⟩ := skillScore_near i hrate
  have hskill : n ≤ 95 := by
    have hweighted := (weighted_bounds i).2
    have hlt : (n : Rat) < 96 := by
      norm_num at hle
      linarith
    have : n < 96 := by exact_mod_cast hlt
    omega
  refine ⟨n, hn, hskill, ?_⟩
  have hbase := baseConviction_eq (by omega : n ≤ 100) (copyabilityScore_le i)
  simp [computeWalletScore, hn, hbase]

/-- A wallet is scored without an overflow. Its skill is the whole part of the weighted sum up to the error of the
roundings, its copyability a hundred less the penalties, and its conviction their mean rounded down, which a history
below the floor caps. The column of the win rate holds numbers below a hundred. -/
theorem computeWalletScore_near (inputs : ScoreInputs) (hrate : |inputs.meaningfulWinRate.value| ≤ 100)
    (config : ScoringConfig) : ∃ r, computeWalletScore inputs config = some r ∧
      (r.skill : Rat) ≤ inputs.weighted + 1 / 10 ^ 20 ∧ inputs.weighted < r.skill + 1 + 1 / 10 ^ 20 ∧ r.skill ≤ 95 ∧
      (r.copyability : Int) = max 0 (100 - r.penalties.total) ∧
      r.conviction = min ((r.skill + r.copyability) / 2)
        (if belowFloor inputs config then config.convictionCapBelowCompleteness else 100) := by
  obtain ⟨n, hn, hsmall, hresult⟩ := computeWalletScore_eq hrate config
  obtain ⟨n', hn', hfloor, hceil⟩ := skillScore_near inputs hrate
  obtain rfl : n = n' := Option.some.inj (hn.symm.trans hn')
  refine ⟨_, hresult, hfloor, hceil, hsmall, ?_, ?_⟩
  · show (((max 0 (min (100 - ((copyabilityScore inputs).2.total : Int)) 100)).toNat : Nat) : Int) = _
    dsimp only
    omega
  · dsimp only
    split <;> rfl

/-- A wallet that wins half of its trades and is out of them within five seconds. -/
def fastWallet : ScoreInputs where
  meaningfulTrades := 40
  tokensTraded := 10
  realizedPnlUsd := 1000
  sizeWeightedRoi := ⟨4, 0, by decide, whole_scaled⟩
  meaningfulWinRate := half
  earlyEntryRate := half
  historyCompleteness := half
  mevLikelihood := half
  avgHoldSeconds := some 5
  gmgnAgreement := some Chains.Decimal.one
  liquidityAvailable := none

theorem computeWalletScore_near_fast : ∃ r, computeWalletScore fastWallet defaultScoring = some r ∧
    (r.skill : Rat) ≤ fastWallet.weighted + 1 / 10 ^ 20 ∧ fastWallet.weighted < r.skill + 1 + 1 / 10 ^ 20 ∧
    r.skill ≤ 95 ∧ (r.copyability : Int) = max 0 (100 - r.penalties.total) ∧
    r.conviction = min ((r.skill + r.copyability) / 2)
      (if belowFloor fastWallet defaultScoring then defaultScoring.convictionCapBelowCompleteness else 100) :=
  computeWalletScore_near fastWallet (by norm_num [fastWallet]) defaultScoring

/-! ## Easier to copy -/

/-- Of two wallets with the same trades, the second is no harder to copy: it holds as
    long, in as much liquidity and with as little front-running, and as much of its
    history is known. What is not known is no obstacle. -/
structure Easier (i j : ScoreInputs) : Prop where
  trades : j.meaningfulTrades = i.meaningfulTrades
  tokens : j.tokensTraded = i.tokensTraded
  roi : j.sizeWeightedRoi = i.sizeWeightedRoi
  winRate : j.meaningfulWinRate = i.meaningfulWinRate
  early : j.earlyEntryRate = i.earlyEntryRate
  agreement : j.gmgnAgreement = i.gmgnAgreement
  hold : ∀ d, j.avgHoldSeconds = some d → ∃ c, i.avgHoldSeconds = some c ∧ c ≤ d
  liquidity : ∀ d, j.liquidityAvailable = some d → ∃ c, i.liquidityAvailable = some c ∧ c.value ≤ d.value
  mev : j.mevLikelihood.value ≤ i.mevLikelihood.value
  completeness : i.historyCompleteness.value ≤ j.historyCompleteness.value

section
variable {i j : ScoreInputs}

theorem Easier.skill (h : Easier i j) : skillScore j = skillScore i := by
  simp only [skillScore, roiComponent, consistencyComponent, sampleComponent, h.trades, h.roi, h.winRate, h.early,
    h.agreement]

theorem Easier.penalties (h : Easier i j) : (copyabilityScore j).2.total ≤ (copyabilityScore i).2.total := by
  have hhold : holdPenalty j + sellRacePenalty j ≤ holdPenalty i + sellRacePenalty i := by
    rw [holdPenalty, sellRacePenalty]
    cases hj : j.avgHoldSeconds with
    | none => exact Nat.zero_le _
    | some d =>
      obtain ⟨c, hi, hle⟩ := h.hold d hj
      rw [holdPenalty, sellRacePenalty, hi]
      dsimp only
      split_ifs <;> omega
  have hliquidity : liquidityPenalty j ≤ liquidityPenalty i := by
    rw [liquidityPenalty]
    cases hj : j.liquidityAvailable with
    | none => exact Nat.zero_le _
    | some d =>
      obtain ⟨c, hi, hle⟩ := h.liquidity d hj
      rw [liquidityPenalty, hi]
      dsimp only
      split_ifs <;> first | omega | linarith
  have hdrift : driftPenalty j ≤ driftPenalty i := by
    have hle := h.mev
    rw [driftPenalty, driftPenalty]
    split_ifs <;> first | omega | linarith
  have hbot : botPenalty j ≤ botPenalty i := by
    have hle := h.mev
    rw [botPenalty, botPenalty]
    split_ifs <;> first | omega | linarith
  show holdPenalty j + liquidityPenalty j + driftPenalty j + sellRacePenalty j + botPenalty j ≤
    holdPenalty i + liquidityPenalty i + driftPenalty i + sellRacePenalty i + botPenalty i
  omega

theorem Easier.copyability (h : Easier i j) : (copyabilityScore i).1 ≤ (copyabilityScore j).1 := by
  have hpenalties := h.penalties
  show (max 0 (min (100 - ((copyabilityScore i).2.total : Int)) 100)).toNat ≤
    (max 0 (min (100 - ((copyabilityScore j).2.total : Int)) 100)).toNat
  omega

/-- What makes a wallet easier to copy lowers none of its scores, and keeps it eligible. -/
theorem computeWalletScore_mono (h : Easier i j) (hrate : |i.meaningfulWinRate.value| ≤ 100) (config : ScoringConfig) :
    ∃ r r', computeWalletScore i config = some r ∧ computeWalletScore j config = some r' ∧ r'.skill = r.skill ∧
      r.copyability ≤ r'.copyability ∧ r.conviction ≤ r'.conviction ∧
      (fullEntryEligible r config = true → fullEntryEligible r' config = true) := by
  obtain ⟨n, hn, hsmall, hi⟩ := computeWalletScore_eq hrate config
  obtain ⟨n', hn', -, hj⟩ := computeWalletScore_eq (i := j) (by rw [h.winRate]; exact hrate) config
  have hskill : n' = n := by
    rw [h.skill, hn] at hn'
    exact (Option.some.inj hn').symm
  have hcopy := h.copyability
  have hle := copyabilityScore_le j
  refine ⟨_, _, hi, hj, hskill, hcopy, ?_, ?_⟩
  · -- a wallet that is easier to copy is not below the floor where the other is not
    have hfloor : belowFloor j config = true → belowFloor i config = true := by
      intro hbelow
      have := h.completeness
      simp only [belowFloor, decide_eq_true_eq] at hbelow ⊢
      linarith
    dsimp only
    subst hskill
    cases hb : belowFloor j config with
    | true =>
      rw [hfloor hb, if_pos rfl, if_pos rfl]
      omega
    | false =>
      simp only [Bool.false_eq_true, if_false]
      split_ifs <;> omega
  · simp only [fullEntryEligible, h.trades, h.tokens, hskill, Bool.and_eq_true, decide_eq_true_eq]
    intro heligible
    exact ⟨⟨heligible.1.1, heligible.1.2.trans hcopy⟩, heligible.2⟩

end

/-- The same, held for ten minutes and with its whole history. -/
def slowWallet : ScoreInputs :=
  { fastWallet with avgHoldSeconds := some 600, historyCompleteness := Chains.Decimal.one }

theorem computeWalletScore_mono_slow : ∃ r r', computeWalletScore fastWallet defaultScoring = some r ∧
    computeWalletScore slowWallet defaultScoring = some r' ∧ r'.skill = r.skill ∧ r.copyability ≤ r'.copyability ∧
    r.conviction ≤ r'.conviction ∧
    (fullEntryEligible r defaultScoring = true → fullEntryEligible r' defaultScoring = true) := by
  have heasier : Easier fastWallet slowWallet := by
    refine ⟨rfl, rfl, rfl, rfl, rfl, rfl, ?_, ?_, le_refl _, ?_⟩
    · intro d hd
      exact ⟨5, rfl, by obtain rfl := Option.some.inj hd; decide⟩
    · intro d hd
      cases hd
    · norm_num [fastWallet, slowWallet]
  exact computeWalletScore_mono heasier (by norm_num [fastWallet]) defaultScoring

/-- The fast one is hardly copyable, and its conviction is capped. -/
example : (computeWalletScore fastWallet defaultScoring).map (fun r => (r.skill, r.copyability, r.conviction)) =
      some (75, 15, 45) ∧
    (computeWalletScore slowWallet defaultScoring).map (fun r => (r.skill, r.copyability, r.conviction)) =
      some (75, 90, 82) := by
  decide +kernel

end WhaleIntelligence.Wallet.Scoring
