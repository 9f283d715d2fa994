import Mathlib.Algebra.Order.Ring.Rat
import WhaleIntelligence.Lib.KeyedTable
import WhaleIntelligence.Models

/- The entry gates: `evaluate_token_on`.

   The gates are tried in their order, and the first that fails gives the rejection
   code. Every evaluation writes one row of `signal_evaluations`, and an accepted one
   also a signal. The columns of type `jsonb` are held decoded. A worker writes under
   a claim on the token, which it must still hold (`evaluateTokenFenced`). -/
namespace WhaleIntelligence.Signals
open WhaleIntelligence KeyedTable

/-! ## Inputs -/

structure SignalsConfig where
  entryMaxTokenAgeHours : Nat
  entryMinLiquidityUsd : Nat
  marketMaxAgeSeconds : Nat
  deriving DecidableEq, Repr

structure MarketGate where
  liquidityUsd : Option Rat
  observedAt : Option DateTime
  deriving DecidableEq, Repr

structure TokenGate where
  lifecycle : LifecycleState
  ageHours : Option Int
  riskFlags : List String
  deriving DecidableEq, Repr

structure ClusterSummary where
  eligibleClusters : Nat
  meaningfulBuys : Nat
  deriving DecidableEq, Repr

structure WalletEligibility where
  eligibleWallets : Nat
  maxSkill : Nat
  maxCopyability : Nat
  minHistoryCompleteness : Rat
  deriving DecidableEq, Repr

/-! ## Rows -/

/-- What an evaluation was based on. -/
structure Evidence where
  clusters : Nat
  meaningfulBuys : Nat
  lifecycle : String
  ageHours : Option Int
  liquidityUsd : Option Rat
  marketAgeSeconds : Option Int
  riskFlags : List String
  maxSkill : Nat
  maxCopyability : Nat
  minHistoryCompleteness : Rat
  narrativeConfidence : Option Nat
  deriving DecidableEq, Repr

/-- A row of `signal_evaluations`. -/
structure EvaluationRow where
  workspaceId : Int
  chain : String
  mint : String
  signalKind : String
  evaluatedAt : DateTime
  status : String
  rejectionCode : Option String
  evidence : Evidence
  deriving DecidableEq, Repr

/-- The workspace and the token of an evaluation. -/
def EvaluationRow.key (row : EvaluationRow) : Int × String × String := (row.workspaceId, row.chain, row.mint)

/-- A row of `signals` before it has an id. -/
structure NewSignal where
  workspaceId : Int
  chain : String
  mint : String
  signalKind : String
  createdAt : DateTime
  score : Int
  status : String
  evidence : Evidence
  deriving DecidableEq, Repr

structure SignalRow extends NewSignal where
  id : Int
  deriving DecidableEq, Repr

/-! ## Gates -/

/-- `n as i64` of a `u64`. -/
def asI64 (n : Nat) : Int := (n : Int).bmod (2 ^ 64)

/-- Seconds from a time to `now`. -/
def ageSeconds (now t : DateTime) : Int := numSeconds (now - t)

def marketFresh (now : DateTime) (config : SignalsConfig) (market : MarketGate) : Bool :=
  match market.observedAt with
  | some t => ageSeconds now t ≤ asI64 config.marketMaxAgeSeconds
  | none => false

def liquidityOk (config : SignalsConfig) (market : MarketGate) : Bool :=
  match market.liquidityUsd with
  | some l => (config.entryMinLiquidityUsd : Rat) ≤ l
  | none => false

def tooOld (config : SignalsConfig) (token : TokenGate) : Bool :=
  match token.ageHours with
  | some age => (config.entryMaxTokenAgeHours : Int) < age
  | none => true

def criticalFlag (flag : String) : Bool :=
  flag == "critical_risk" || flag == "wash_trading" || flag == "honeypot" || flag == "rugged"

/-- The code of the first gate that fails. -/
def entryRejection (now : DateTime) (config : SignalsConfig) (token : TokenGate) (market : MarketGate)
    (clusters : ClusterSummary) (wallets : WalletEligibility) : Option String :=
  if clusters.eligibleClusters < 2 then some "insufficient_clusters"
  else if clusters.meaningfulBuys < 2 then some "insufficient_buys"
  else if !token.lifecycle.entrySupported || token.lifecycle == .unsupported then some "unsupported_lifecycle"
  else if tooOld config token then some "token_too_old"
  else if !liquidityOk config market then some "insufficient_liquidity"
  else if token.riskFlags.any criticalFlag then
    some (if token.riskFlags.any (· == "wash_trading") then "wash_risk" else "critical_risk")
  else if !marketFresh now config market then some "stale_market"
  else if wallets.maxSkill < 70 then some "ineligible_skill"
  else if wallets.maxCopyability < 60 then some "ineligible_copyability"
  else if wallets.minHistoryCompleteness < 4 / 5 then some "incomplete_history"
  else none

def computeEntryScore (clusters : ClusterSummary) (wallets : WalletEligibility) (narrativeConfidence : Option Nat) :
    Nat :=
  min (min clusters.eligibleClusters 5 * 8 + (min wallets.maxSkill 100 + min wallets.maxCopyability 100) / 4 +
    min (narrativeConfidence.getD 0) 100 / 5) 100

/-- What an evaluation writes. -/
structure Evaluated where
  evaluation : EvaluationRow
  signal : Option NewSignal
  deriving DecidableEq, Repr

/-- The unique key of `signals`. -/
def NewSignal.key (s : NewSignal) : Int × String × String × String × DateTime :=
  (s.workspaceId, s.chain, s.mint, s.signalKind, s.createdAt)

/-- `evaluate_token_on`. A signal that is there already makes the insertion fail. -/
def evaluateTokenOn (signals : List SignalRow) (workspaceId : Int) (chain : ChainKind) (mint : String)
    (now : DateTime) (config : SignalsConfig) (token : TokenGate) (market : MarketGate)
    (clusters : ClusterSummary) (wallets : WalletEligibility) (narrativeConfidence : Option Nat) :
    Except String Evaluated :=
  let evidence : Evidence := {
    clusters := clusters.eligibleClusters
    meaningfulBuys := clusters.meaningfulBuys
    lifecycle := token.lifecycle.asStr
    ageHours := token.ageHours
    liquidityUsd := market.liquidityUsd
    marketAgeSeconds := market.observedAt.map (ageSeconds now)
    riskFlags := token.riskFlags
    maxSkill := wallets.maxSkill
    maxCopyability := wallets.maxCopyability
    minHistoryCompleteness := wallets.minHistoryCompleteness
    narrativeConfidence := narrativeConfidence }
  let row (status : String) (code : Option String) : EvaluationRow :=
    ⟨workspaceId, chain.asStr, mint, "entry", now, status, code, evidence⟩
  match entryRejection now config token market clusters wallets with
  | some code => .ok ⟨row "rejected" (some code), none⟩
  | none =>
    let signal : NewSignal := ⟨workspaceId, chain.asStr, mint, "entry", now,
      computeEntryScore clusters wallets narrativeConfidence, "active", evidence⟩
    if signals.any (fun s => s.key == signal.key) then .error "duplicate key value violates unique constraint"
    else .ok ⟨row "accepted" none, some signal⟩

section
variable {signals : List SignalRow} {workspaceId : Int} {chain : ChainKind} {mint : String} {now : DateTime}
variable {config : SignalsConfig} {token : TokenGate} {market : MarketGate} {clusters : ClusterSummary}
variable {wallets : WalletEligibility} {narrative : Option Nat} {out : Evaluated}

/-- Every row is of the workspace, the token and the time of the evaluation, and a
signal is written exactly with an accepted row, which is the one without a code. -/
theorem evaluateTokenOn_rows (h : evaluateTokenOn signals workspaceId chain mint now config token market clusters
    wallets narrative = .ok out) :
    (out.evaluation.workspaceId = workspaceId ∧ out.evaluation.chain = chain.asStr ∧ out.evaluation.mint = mint ∧
      out.evaluation.signalKind = "entry" ∧ out.evaluation.evaluatedAt = now) ∧
    (out.signal.isSome ↔ out.evaluation.rejectionCode = none) := by
  unfold evaluateTokenOn at h
  simp only at h
  split at h
  · obtain rfl := Except.ok.inj h
    exact ⟨⟨rfl, rfl, rfl, rfl, rfl⟩, by simp⟩
  · split at h
    · cases h
    · obtain rfl := Except.ok.inj h
      exact ⟨⟨rfl, rfl, rfl, rfl, rfl⟩, by simp⟩

end

/-! ## Claims -/

/-- A row of `signal_eval_claims`, which is unique for a workspace and a token. -/
structure EvalClaim where
  claimedBy : String
  claimedAt : DateTime
  expiresAt : DateTime
  deriving DecidableEq, Repr

abbrev EvalKey := Int × String × String

abbrev EvalClaims := Table EvalKey EvalClaim

/-- The claim under a token, as long as its lease runs. -/
def EvalClaim.heldBy (claim : EvalClaim) (token : String) (dbNow : DateTime) : Bool :=
  claim.claimedBy == token && dbNow < claim.expiresAt

def EvalClaim.expired (claim : EvalClaim) (now : DateTime) : Bool := claim.expiresAt ≤ now

/-- `release_eval_claim`. -/
def releaseEvalClaim (claims : EvalClaims) (key : EvalKey) (token : String) : EvalClaims :=
  claims.deleteWhere key fun claim => claim.claimedBy == token

/-- `evaluate_token_fenced`: what is written, and the claims after it. -/
def evaluateTokenFenced (claims : EvalClaims) (dbNow : DateTime) (signals : List SignalRow) (workspaceId : Int)
    (chain : ChainKind) (mint : String) (now : DateTime) (config : SignalsConfig) (token : TokenGate)
    (market : MarketGate) (clusters : ClusterSummary) (wallets : WalletEligibility)
    (narrativeConfidence : Option Nat) (claimToken : String) : Except String (Evaluated × EvalClaims) :=
  let key := (workspaceId, chain.asStr, mint)
  if claims.affects key (EvalClaim.heldBy · claimToken dbNow) then do
    let out ← evaluateTokenOn signals workspaceId chain mint now config token market clusters wallets
      narrativeConfidence
    return (out, releaseEvalClaim claims key claimToken)
  else
    .error ("evaluation claim not held (stale or reclaimed); refusing to write " ++ chain.debug ++ ":" ++ mint)

end WhaleIntelligence.Signals
