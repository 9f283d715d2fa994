import WhaleIntelligence.Signals.Alpha
import WhaleIntelligence.Wallet.Scoring
import WhaleIntelligence.Wallet.Skill

/- `score_wallet`: what the trades of a wallet give for its scores.

   The realized positions give the win rate, the holding time and the counts. The other
   inputs are constants here: no return, no early entries, no agreement, no sign of MEV,
   and the whole history. So the skill of a wallet is between 17 and 47 whatever it
   traded, and its copyability is one of four (`scoreWallet_bounds`). -/
namespace WhaleIntelligence.Wallet.Scoring
open WhaleIntelligence FixedPoint Fixed HashGroup
open Query (distinct)

/-! ## Rows -/

/-- A row of `trades`, with the columns that the scoring reads. -/
structure TradeRow extends Signals.TradeRow where
  tokenAmount : Option Rat
  blockTime : Option DateTime
  deriving DecidableEq, Repr

/-- A row whose side is neither is dropped. -/
def TradeRow.scored (row : TradeRow) : Option ScoredTrade :=
  match row.side with
  | "buy" => some ⟨row.mint, .buy, row.tokenAmount.getD 0, row.usdValue, row.blockTime⟩
  | "sell" => some ⟨row.mint, .sell, row.tokenAmount.getD 0, row.usdValue, row.blockTime⟩
  | _ => none

/-- The row counts at a time: it is of the wallet and not of a later block. -/
def TradeRow.counts (row : TradeRow) (chain : ChainKind) (address : String) (asOf : DateTime) : Bool :=
  row.chain == chain.asStr && row.wallet == address && row.blockTime.any (· ≤ asOf)

/-- The trades of the wallet until a time, in the order of their blocks. -/
def tradesUntil (trades : List TradeRow) (chain : ChainKind) (address : String) (asOf : DateTime) : List ScoredTrade :=
  ((trades.filter (TradeRow.counts · chain address asOf)).insertionSort fun a b =>
    a.blockTime.getD 0 ≤ b.blockTime.getD 0).filterMap TradeRow.scored

/-! ## Inputs -/

/-- The share of the positions that made a profit. -/
def winRate (wins positions : Nat) : Option Chains.Decimal :=
  if positions = 0 then some zero else do (← decimalFrom wins).div (← decimalFrom positions)

/-- The mean of the holding times that are known. Their sum is an `i64`, which wraps in the release build. -/
def avgHold (holds : List Int) : Option Int :=
  if holds.isEmpty then none else some ((Int64.ofInt holds.sum).toInt.tdiv (max holds.length 1 : Nat))

/-- The inputs of a wallet whose win rate is known. -/
def positionInputs (matched : List MatchedPosition) (meaningfulWinRate : Chains.Decimal) : ScoreInputs :=
  let meaningful := matched.filter fun m => m.realizedPnlUsd.any fun p => 1 ≤ |p|
  { meaningfulTrades := asU32 meaningful.length
    tokensTraded := asU32 (distinct (·.mint) matched).length
    realizedPnlUsd := (matched.filterMap (·.realizedPnlUsd)).sum
    sizeWeightedRoi := zero
    meaningfulWinRate := meaningfulWinRate
    earlyEntryRate := zero
    historyCompleteness := Chains.Decimal.one
    mevLikelihood := zero
    avgHoldSeconds := avgHold (matched.filterMap (·.holdSeconds))
    gmgnAgreement := none
    liquidityAvailable := none }

/-- What `score_wallet` hands to the scoring. -/
def scoreInputs (matched : List MatchedPosition) : Option ScoreInputs :=
  let wins := matched.filter fun m => m.realizedPnlUsd.any fun p => 0 < p
  (winRate wins.length matched.length).map (positionInputs matched)

/-! ## The pass -/

/-- The row of a result. -/
def scoreRow (chain : ChainKind) (address : String) (asOf : DateTime) (inputs : ScoreInputs)
    (result : WalletScoreResult) : Signals.ScoreRow :=
  ⟨chain.asStr, address, asOf, asI32 result.skill, asI32 result.copyability, inputs.historyCompleteness.value⟩

/-- `store_wallet_score`: the first score of a wallet at a time stays. -/
def storeWalletScore (scores : List Signals.ScoreRow) (row : Signals.ScoreRow) : List Signals.ScoreRow :=
  if scores.any fun r => r.chain == row.chain && r.address == row.address && r.asOf == row.asOf then scores
  else scores ++ [row]

/-- `score_wallet`: the result, none where the policy forbids it, and the rows after it. -/
def scoreWallet (dbNow : DateTime) (labels : List Signals.LabelRow) (trades : List TradeRow)
    (scores : List Signals.ScoreRow) (workspaceId : Int) (chain : ChainKind) (address : String) (asOf : DateTime)
    (config : ScoringConfig) : Except (Abort String) (Option WalletScoreResult × List Signals.ScoreRow) :=
  match Signals.effectiveDisposition dbNow labels workspaceId chain address with
  | .error e => .error (.error e)
  | .ok disposition =>
    if !disposition.allowsScoring then .ok (none, scores)
    else
      match scoreInputs (fifoMatch (tradesUntil trades chain address asOf)) with
      | none => .error .panic
      | some inputs =>
        match computeWalletScore inputs config with
        | none => .error .panic
        | some result => .ok (some result, storeWalletScore scores (scoreRow chain address asOf inputs result))

/-! ## Bounds -/

section
variable {inputs : ScoreInputs} {wins positions : Nat}

/-- A share is a rate, up to its rounding. -/
theorem winRate_near (hwins : wins ≤ positions) (hsmall : positions < 2 ^ 96) :
    ∃ rate, winRate wins positions = some rate ∧ -(1 / 10 ^ 26) ≤ rate.value ∧ rate.value ≤ 1 + 1 / 10 ^ 26 := by
  unfold winRate
  split
  · exact ⟨zero, rfl, by rw [zero_value]; norm_num, by rw [zero_value]; norm_num⟩
  · rename_i hpos
    obtain ⟨a, ha, aValue⟩ : ∃ a : Chains.Decimal, decimalFrom wins = some a ∧ a.value = ((wins : Int) : Rat) :=
      ofInt_fits (by rw [Int.natAbs_natCast]; omega)
    obtain ⟨b, hb, bValue⟩ :
        ∃ b : Chains.Decimal, decimalFrom positions = some b ∧ b.value = ((positions : Int) : Rat) :=
      ofInt_fits (by rw [Int.natAbs_natCast]; omega)
    have hpos' : (0 : Rat) < positions := by exact_mod_cast Nat.pos_of_ne_zero hpos
    have hle : (wins : Rat) ≤ positions := by exact_mod_cast hwins
    have hquot : 0 ≤ (wins : Rat) / positions ∧ (wins : Rat) / positions ≤ 1 :=
      ⟨by positivity, (div_le_one hpos').mpr hle⟩
    have hself : Near 0 a (wins : Rat) := by
      have := near_self a
      rw [aValue] at this
      exact_mod_cast this
    obtain ⟨c, hc, hnear⟩ := decimal_div hself (show b.value = (positions : Rat) by exact_mod_cast bValue) hpos'.ne'
      (by rw [abs_of_nonneg hquot.1, zero_div]; linarith [hquot.2])
    obtain ⟨hlow, hhigh⟩ := near_bounds hnear
    rw [zero_div, zero_add] at hlow hhigh
    exact ⟨c, by simp [ha, hb, hc], by linarith [hquot.1], by linarith [hquot.2]⟩

/-- The inputs of a wallet: only what its positions give differs. -/
structure Runtime (inputs : ScoreInputs) : Prop where
  low : -(1 / 10 ^ 26) ≤ inputs.meaningfulWinRate.value
  high : inputs.meaningfulWinRate.value ≤ 1 + 1 / 10 ^ 26
  roi : inputs.sizeWeightedRoi = zero
  early : inputs.earlyEntryRate = zero
  completeness : inputs.historyCompleteness = Chains.Decimal.one
  mev : inputs.mevLikelihood = zero
  agreement : inputs.gmgnAgreement = none
  liquidity : inputs.liquidityAvailable = none

theorem scoreInputs_runtime (matched : List MatchedPosition) (hsmall : matched.length < 2 ^ 96) :
    ∃ inputs, scoreInputs matched = some inputs ∧ Runtime inputs := by
  obtain ⟨rate, hrate, hlow, hhigh⟩ := winRate_near (List.length_filter_le
    (fun m : MatchedPosition => m.realizedPnlUsd.any fun p => 0 < p) matched) hsmall
  have hinputs : scoreInputs matched = some (positionInputs matched rate) := by
    simp only [scoreInputs, hrate, Option.map_some]
  exact ⟨_, hinputs, hlow, hhigh, rfl, rfl, rfl, rfl, rfl, rfl⟩

/-- The counts of a share that is computed are decimals. -/
theorem winRate_fits {rate : Chains.Decimal} (h : winRate wins positions = some rate) : positions < 2 ^ 96 := by
  by_contra hlarge
  have hfrom : decimalFrom (positions : Nat) = none := dif_neg (by rw [Int.natAbs_natCast]; exact hlarge)
  rw [winRate, if_neg (by omega), hfrom] at h
  cases hw : decimalFrom wins with
  | none => rw [hw] at h; cases h
  | some w => rw [hw] at h; cases h

theorem runtime_of_scoreInputs {matched : List MatchedPosition} (h : scoreInputs matched = some inputs) :
    Runtime inputs := by
  rw [scoreInputs, Option.map_eq_some_iff] at h
  obtain ⟨rate, hrate, hinputs⟩ := h
  obtain ⟨inputs', hinputs', hruntime⟩ := scoreInputs_runtime matched (winRate_fits hrate)
  rw [scoreInputs, hrate, Option.map_some, hinputs] at hinputs'
  rw [Option.some.inj hinputs']
  exact hruntime

theorem Runtime.small (h : Runtime inputs) : |inputs.meaningfulWinRate.value| ≤ 100 := by
  have hlow := h.low
  have hhigh := h.high
  norm_num at hlow hhigh
  exact abs_le.mpr ⟨by linarith, by linarith⟩

theorem Runtime.weighted (h : Runtime inputs) : 17 + 2 / 5 ≤ inputs.weighted ∧ inputs.weighted ≤ 47 + 1 / 2 := by
  have htrades : ((min inputs.meaningfulTrades 50 : Nat) : Rat) ≤ 50 := by exact_mod_cast Nat.min_le_right _ _
  have hnonneg : (0 : Rat) ≤ (min inputs.meaningfulTrades 50 : Nat) := Nat.cast_nonneg _
  obtain ⟨hhigh, hlow⟩ := win_bounds inputs.meaningfulWinRate.value
  have hlow' := hlow (1 / 10 ^ 26) (by norm_num) (by norm_num) h.low
  have hroi : max (-1) (min (0 : Rat) 5) = 0 := by norm_num
  have hzero : unit 0 = 0 := unit_eq (by norm_num) (by norm_num)
  have hhalf : unit (1 / 2) = 1 / 2 := unit_eq (by norm_num) (by norm_num)
  rw [ScoreInputs.weighted, h.roi, h.early, h.agreement, Option.getD_none, zero_value, half_value, hroi, hzero, hhalf]
  generalize ((min inputs.meaningfulTrades 50 : Nat) : Rat) = trades at htrades hnonneg
  norm_num at hlow' ⊢
  constructor <;> linarith

/-- Only the holding time is held against a wallet. -/
theorem Runtime.copyability (h : Runtime inputs) :
    (copyabilityScore inputs).1 = 25 ∨ (copyabilityScore inputs).1 = 70 ∨ (copyabilityScore inputs).1 = 90 ∨
      (copyabilityScore inputs).1 = 100 := by
  have hmev : inputs.mevLikelihood.value = 0 := by rw [h.mev, zero_value]
  have hdrift : driftPenalty inputs = 0 := by
    rw [driftPenalty, hmev]
    norm_num
  have hbot : botPenalty inputs = 0 := by
    rw [botPenalty, hmev]
    norm_num
  have hliquidity : liquidityPenalty inputs = 0 := by rw [liquidityPenalty, h.liquidity]
  have hhold : holdPenalty inputs + sellRacePenalty inputs = 75 ∨ holdPenalty inputs + sellRacePenalty inputs = 30 ∨
      holdPenalty inputs + sellRacePenalty inputs = 10 ∨ holdPenalty inputs + sellRacePenalty inputs = 0 := by
    rw [holdPenalty, sellRacePenalty]
    cases inputs.avgHoldSeconds with
    | none => exact Or.inr (Or.inr (Or.inr rfl))
    | some hold =>
      dsimp only
      split_ifs <;> omega
  have hscore : (copyabilityScore inputs).1 = (max 0 (min (100 - ((holdPenalty inputs + liquidityPenalty inputs +
      driftPenalty inputs + sellRacePenalty inputs + botPenalty inputs : Nat) : Int)) 100)).toNat := rfl
  omega

/-- What the scoring gives, whatever the positions of the wallet are. -/
theorem Runtime.result (h : Runtime inputs) (config : ScoringConfig) :
    ∃ result, computeWalletScore inputs config = some result ∧ 17 ≤ result.skill ∧ result.skill ≤ 47 ∧
      result.copyability ∈ [25, 70, 90, 100] := by
  obtain ⟨n, hn, -, hresult⟩ := computeWalletScore_eq h.small config
  obtain ⟨n', hn', hfloor, hceil⟩ := skillScore_near inputs h.small
  obtain rfl : n = n' := Option.some.inj (hn.symm.trans hn')
  obtain ⟨hlow, hhigh⟩ := h.weighted
  norm_num at hfloor hceil
  refine ⟨_, hresult, ?_, ?_, ?_⟩
  · have : (16 : Rat) < n := by linarith
    have : 16 < n := by exact_mod_cast this
    exact this
  · have : (n : Rat) < 48 := by linarith
    have : n < 48 := by exact_mod_cast this
    exact Nat.le_of_lt_succ this
  · simpa using h.copyability

/-- A trade closes a position at most. -/
theorem length_fifoMatch_le (trades : List ScoredTrade) : (fifoMatch trades).length ≤ trades.length := by
  have hstep : ∀ (st : Map String (List OpenLot) × List MatchedPosition) (t : ScoredTrade),
      (matchTrade st t).2.length ≤ st.2.length + 1 := by
    intro st t
    rw [matchTrade]
    cases t.side with
    | buy => exact Nat.le_succ _
    | sell => simp
  have hrun : ∀ (trades : List ScoredTrade) (st : Map String (List OpenLot) × List MatchedPosition),
      (trades.foldl matchTrade st).2.length ≤ st.2.length + trades.length := by
    intro trades
    induction trades with
    | nil => exact fun st => Nat.le_refl _
    | cons t trades ih =>
      intro st
      have hfirst := hstep st t
      have hrest := ih (matchTrade st t)
      rw [List.foldl_cons, List.length_cons]
      omega
  have hall := hrun trades (∅, [])
  rw [List.length_nil, Nat.zero_add] at hall
  exact hall

theorem length_tradesUntil_le (trades : List TradeRow) (chain : ChainKind) (address : String) (asOf : DateTime) :
    (tradesUntil trades chain address asOf).length ≤ trades.length := by
  rw [tradesUntil]
  calc _ ≤ _ := List.length_filterMap_le _ _
    _ = (trades.filter (TradeRow.counts · chain address asOf)).length := List.length_insertionSort _ _
    _ ≤ trades.length := List.length_filter_le _ _

/-- A wallet that the policy lets score is scored, with a skill from 17 to 47 and one of
    four values of copyability, whatever it traded. -/
theorem scoreWallet_bounds {dbNow : DateTime} {labels : List Signals.LabelRow} {trades : List TradeRow}
    {workspaceId : Int} {chain : ChainKind} {address : String} {asOf : DateTime}
    (hpolicy : Signals.effectiveDisposition dbNow labels workspaceId chain address = .ok .score)
    (hsmall : trades.length < 2 ^ 64) (scores : List Signals.ScoreRow) (config : ScoringConfig) :
    ∃ inputs result, scoreInputs (fifoMatch (tradesUntil trades chain address asOf)) = some inputs ∧
      computeWalletScore inputs config = some result ∧
      scoreWallet dbNow labels trades scores workspaceId chain address asOf config =
        .ok (some result, storeWalletScore scores (scoreRow chain address asOf inputs result)) ∧
      17 ≤ result.skill ∧ result.skill ≤ 47 ∧ result.copyability ∈ [25, 70, 90, 100] := by
  have hpositions : (fifoMatch (tradesUntil trades chain address asOf)).length < 2 ^ 96 := by
    have hmatched := length_fifoMatch_le (tradesUntil trades chain address asOf)
    have huntil := length_tradesUntil_le trades chain address asOf
    omega
  obtain ⟨inputs, hinputs, hruntime⟩ := scoreInputs_runtime _ hpositions
  obtain ⟨result, hresult, hbounds⟩ := hruntime.result config
  refine ⟨inputs, result, hinputs, hresult, ?_, hbounds⟩
  simp [scoreWallet, hpolicy, hinputs, hresult, Disposition.allowsScoring]

end

/-- A buy and, ten minutes later, a sell at twice the price. -/
def doubled : List TradeRow :=
  [⟨⟨"solana", "ann", "mint", "buy", some 50⟩, some 100, some (seconds 0)⟩,
    ⟨⟨"solana", "ann", "mint", "sell", some 100⟩, some 100, some (seconds 600)⟩]

theorem scoreWallet_bounds_doubled :
    ∃ inputs result, scoreInputs (fifoMatch (tradesUntil doubled .solana "ann" (seconds 600))) = some inputs ∧
      computeWalletScore inputs defaultScoring = some result ∧
      scoreWallet 0 [Signals.scoreLabel "ann"] doubled [] 1 .solana "ann" (seconds 600) defaultScoring =
        .ok (some result, storeWalletScore [] (scoreRow .solana "ann" (seconds 600) inputs result)) ∧
      17 ≤ result.skill ∧ result.skill ≤ 47 ∧ result.copyability ∈ [25, 70, 90, 100] :=
  scoreWallet_bounds (by decide +kernel) (by decide) [] defaultScoring

/-- A wallet that doubles its money on every trade is far below the bar for entries. -/
example : ((scoreWallet 0 [Signals.scoreLabel "ann"] doubled [] 1 .solana "ann" (seconds 600)
    defaultScoring).toOption.map fun r => r.2.map fun row => (row.skillScore, row.copyabilityScore)) =
      some [(37, 100)] := by
  decide +kernel

end WhaleIntelligence.Wallet.Scoring
