import WhaleIntelligence.Lib.Transaction
import WhaleIntelligence.Signals.EvalClaims
import WhaleIntelligence.Signals.SignalGate

/- An evaluation as one transaction, and the two entry gates compared.

   `evaluate_token_fenced` locks its claim, writes the rows of the evaluation, and
   deletes the claim, in one transaction; any of these statements may fail. Where it
   returns an error the store is as before, and where it returns a result one
   evaluation row was added, with a signal exactly when it is an accepted one, and the
   caller's claim is gone (`evaluateTokenFenced_atomic`). The code of the row is the one
   that `evaluate_entry_gate` gives for the corresponding input, unless the history's
   completeness is below 0.80 and its binary64 number is not (`gates_differ`). -/
namespace WhaleIntelligence.Signals
open WhaleIntelligence KeyedTable Transaction Fallible Rounding Sf

/-- The codes of `REJECTION_CODES`. -/
def rejectionCodes : List String :=
  ["insufficient_clusters", "insufficient_buys", "unsupported_lifecycle", "token_too_old", "insufficient_liquidity",
    "critical_risk", "wash_risk", "stale_market", "ineligible_skill", "ineligible_copyability", "incomplete_history",
    "no_cluster_sells", "no_fresh_transfer", "no_dev_distribution", "insufficient_liquidity_drop",
    "no_tracked_selling", "incomplete_history_replay", "stale_market_replay"]

/-! ## The transaction -/

/-- The tables that an evaluation writes. -/
structure GateStore where
  signals : List SignalRow
  evaluations : List EvaluationRow
  claims : EvalClaims

/-- The statements of the transaction. -/
inductive Statement where
  | begin | lockClaim | insertSignal | recordEvaluation | releaseClaim | commit
  deriving DecidableEq, Repr

/-- The statements that fail, each with its error. -/
abbrev Faults := Statement → Option String

abbrev GateTx := Tx GateStore String

/-- `record_evaluation`. -/
def recordEvaluation (faults : Faults) (row : EvaluationRow) : GateTx Unit :=
  statement (faults .recordEvaluation) fun s => .ok ((), { s with evaluations := s.evaluations ++ [row] })

/-- The insertion of a signal, with the id that it gets from the sequence. -/
def insertSignal (faults : Faults) (new : NewSignal) (id : Int) : GateTx Int :=
  statement (faults .insertSignal) fun s =>
    if s.signals.any (fun row => row.key == new.key) then .error "duplicate key value violates unique constraint"
    else .ok (id, { s with signals := s.signals ++ [⟨new, id⟩] })

/-- The claim is locked, or the transaction ends. -/
def lockClaim (faults : Faults) (dbNow : DateTime) (chain : ChainKind) (key : EvalKey) (claimToken : String) :
    GateTx Unit :=
  statement (faults .lockClaim) fun s =>
    if s.claims.affects key (EvalClaim.heldBy · claimToken dbNow) then .ok ((), s)
    else .error ("evaluation claim not held (stale or reclaimed); refusing to write " ++ chain.debug ++ ":" ++ key.2.2)

def releaseClaim (faults : Faults) (key : EvalKey) (claimToken : String) : GateTx Unit :=
  statement (faults .releaseClaim) fun s => .ok ((), { s with claims := releaseEvalClaim s.claims key claimToken })

/-- A statement that only fails or not. -/
def control (faults : Faults) (which : Statement) : GateTx Unit := statement (faults which) fun s => .ok ((), s)

def entryEvidence (now : DateTime) (token : TokenGate) (market : MarketGate) (clusters : ClusterSummary)
    (wallets : WalletEligibility) (narrativeConfidence : Option Nat) : Evidence where
  clusters := clusters.eligibleClusters
  meaningfulBuys := clusters.meaningfulBuys
  lifecycle := token.lifecycle.asStr
  ageHours := token.ageHours
  liquidityUsd := market.liquidityUsd
  marketAgeSeconds := market.observedAt.map (ageSeconds now)
  riskFlags := token.riskFlags
  maxSkill := wallets.maxSkill
  maxCopyability := wallets.maxCopyability
  minHistoryCompleteness := wallets.minHistoryCompleteness
  narrativeConfidence := narrativeConfidence

section
variable (faults : Faults) (id : Int) (dbNow : DateTime) (workspaceId : Int) (chain : ChainKind) (mint : String)
variable (now : DateTime) (config : SignalsConfig) (token : TokenGate) (market : MarketGate)
variable (clusters : ClusterSummary) (wallets : WalletEligibility) (narrativeConfidence : Option Nat)
variable (claimToken : String)

def entryRow (status : String) (code : Option String) : EvaluationRow :=
  ⟨workspaceId, chain.asStr, mint, "entry", now, status, code,
    entryEvidence now token market clusters wallets narrativeConfidence⟩

def entrySignal : NewSignal :=
  ⟨workspaceId, chain.asStr, mint, "entry", now, computeEntryScore clusters wallets narrativeConfidence, "active",
    entryEvidence now token market clusters wallets narrativeConfidence⟩

/-- `evaluate_token_on`, on the connection of a transaction. -/
def evaluateTokenOnTx : GateTx (Option Int) :=
  let row := entryRow workspaceId chain mint now token market clusters wallets narrativeConfidence
  match entryRejection now config token market clusters wallets with
  | some code => do
    recordEvaluation faults (row "rejected" (some code))
    return none
  | none => do
    let signalId ← insertSignal faults
      (entrySignal workspaceId chain mint now token market clusters wallets narrativeConfidence) id
    recordEvaluation faults (row "accepted" none)
    return some signalId

/-- The statements of `evaluate_token_fenced`. -/
def fencedTx : GateTx (Option Int) := do
  let key := (workspaceId, chain.asStr, mint)
  control faults .begin
  lockClaim faults dbNow chain key claimToken
  let out ← evaluateTokenOnTx faults id workspaceId chain mint now config token market clusters wallets
    narrativeConfidence
  releaseClaim faults key claimToken
  control faults .commit
  return out

/-- `evaluate_token_fenced`: its answer and the store after it. -/
def evaluateTokenFencedIn (store : GateStore) : Except String (Option Int) × GateStore :=
  commit (fencedTx faults id dbNow workspaceId chain mint now config token market clusters wallets
    narrativeConfidence claimToken) store

end

/-! ## What the transaction does -/

/-- What an evaluation with the code has written: its row, a signal where there is no
code, and the deletion of the caller's claim. -/
structure Written (key : EvalKey) (claimToken : String) (code : Option String) (before after : GateStore)
    (out : Option Int) : Prop where
  evaluation : ∃ row, after.evaluations = before.evaluations ++ [row] ∧ row.key = key ∧ row.rejectionCode = code ∧
    row.status = if code.isSome then "rejected" else "accepted"
  code_mem : ∀ c, code = some c → c ∈ rejectionCodes
  signal : match code with
    | some _ => after.signals = before.signals ∧ out = none
    | none => ∃ row : SignalRow, after.signals = before.signals ++ [row] ∧
        (row.workspaceId, row.chain, row.mint) = key ∧
      out = some row.id
  claim : ∃ claim, before.claims key = some claim ∧ claim.claimedBy = claimToken ∧
    after.claims = before.claims.set key none

section
variable {faults : Faults} {id : Int} {dbNow : DateTime} {workspaceId : Int} {chain : ChainKind} {mint : String}
variable {now : DateTime} {config : SignalsConfig} {token : TokenGate} {market : MarketGate}
variable {clusters : ClusterSummary} {wallets : WalletEligibility} {narrative : Option Nat}
variable {claimToken : String} {key : EvalKey} {s t : GateStore} {out : Option Int} {code : String}

theorem recordEvaluation_ok {row : EvaluationRow} {u : Unit} : recordEvaluation faults row s = .ok (u, t) ↔
    faults .recordEvaluation = none ∧ { s with evaluations := s.evaluations ++ [row] } = t := by
  rw [recordEvaluation, statement_ok]
  simp

theorem insertSignal_ok {new : NewSignal} {n : Int} : insertSignal faults new id s = .ok (n, t) ↔
    faults .insertSignal = none ∧ (∀ row ∈ s.signals, row.key ≠ new.key) ∧ id = n ∧
      { s with signals := s.signals ++ [⟨new, id⟩] } = t := by
  rw [insertSignal, statement_ok]
  by_cases hdup : s.signals.any (fun row => row.key == new.key) = true
  · have hno : ¬∀ row ∈ s.signals, row.key ≠ new.key := by simpa using hdup
    simp [hdup, hno]
  · have hall : ∀ row ∈ s.signals, row.key ≠ new.key := by simpa using hdup
    simp only [if_neg hdup, Except.ok.injEq, Prod.mk.injEq, iff_true_intro hall, true_and]

theorem lockClaim_ok {u : Unit} : lockClaim faults dbNow chain key claimToken s = .ok (u, t) ↔
    faults .lockClaim = none ∧ (∃ claim, s.claims key = some claim ∧ claim.heldBy claimToken dbNow = true) ∧ s = t := by
  rw [lockClaim, statement_ok]
  by_cases hheld : s.claims.affects key (EvalClaim.heldBy · claimToken dbNow) = true
  · simp only [if_pos hheld, affects_iff.mp hheld, Except.ok.injEq, Prod.mk.injEq, true_and]
  · have hno := mt affects_iff.mpr hheld
    simp [hheld, hno]

theorem releaseClaim_ok {u : Unit} : releaseClaim faults key claimToken s = .ok (u, t) ↔
    faults .releaseClaim = none ∧ { s with claims := releaseEvalClaim s.claims key claimToken } = t := by
  rw [releaseClaim, statement_ok]
  simp

theorem control_ok {which : Statement} {u : Unit} : control faults which s = .ok (u, t) ↔
    faults which = none ∧ s = t := by
  rw [control, statement_ok]
  simp

/-- The gates come to an end with one row and no signal, or with both. -/
theorem evaluateTokenOnTx_ok : evaluateTokenOnTx faults id workspaceId chain mint now config token market clusters
      wallets narrative s = .ok (out, t) ↔
    match entryRejection now config token market clusters wallets with
    | some code => faults .recordEvaluation = none ∧ out = none ∧
      t = { s with evaluations := s.evaluations ++
        [entryRow workspaceId chain mint now token market clusters wallets narrative "rejected" (some code)] }
    | none =>
      let new := entrySignal workspaceId chain mint now token market clusters wallets narrative
      faults .insertSignal = none ∧ faults .recordEvaluation = none ∧ (∀ row ∈ s.signals, row.key ≠ new.key) ∧
        out = some id ∧ t = { s with
          signals := s.signals ++ [⟨new, id⟩]
          evaluations := s.evaluations ++
            [entryRow workspaceId chain mint now token market clusters wallets narrative "accepted" none] } := by
  unfold evaluateTokenOnTx
  cases entryRejection now config token market clusters wallets with
  | some code =>
    simp only [run_bind_ok, recordEvaluation_ok, run_pure, Except.ok.injEq, Prod.mk.injEq]
    constructor
    · rintro ⟨-, u, ⟨hfault, rfl⟩, rfl, rfl⟩
      exact ⟨hfault, rfl, rfl⟩
    · rintro ⟨hfault, rfl, rfl⟩
      exact ⟨(), _, ⟨hfault, rfl⟩, rfl, rfl⟩
  | none =>
    simp only [run_bind_ok, insertSignal_ok, recordEvaluation_ok, run_pure, Except.ok.injEq, Prod.mk.injEq]
    constructor
    · rintro ⟨n, u, ⟨hinsert, hfree, rfl, rfl⟩, -, v, ⟨hrecord, rfl⟩, rfl, rfl⟩
      exact ⟨hinsert, hrecord, hfree, rfl, rfl⟩
    · rintro ⟨hinsert, hrecord, hfree, rfl, rfl⟩
      exact ⟨id, _, ⟨hinsert, hfree, rfl, rfl⟩, (), _, ⟨hrecord, rfl⟩, rfl, rfl⟩

/-- The transaction ends well when none of its statements fails, the claim is held and
the gates end well. -/
theorem fencedTx_ok : fencedTx faults id dbNow workspaceId chain mint now config token market clusters wallets
      narrative claimToken s = .ok (out, t) ↔
    faults .begin = none ∧ faults .lockClaim = none ∧ faults .releaseClaim = none ∧ faults .commit = none ∧
      (∃ claim, s.claims (workspaceId, chain.asStr, mint) = some claim ∧ claim.heldBy claimToken dbNow = true) ∧
      ∃ u, evaluateTokenOnTx faults id workspaceId chain mint now config token market clusters wallets narrative s =
          .ok (out, u) ∧
        t = { u with claims := releaseEvalClaim u.claims (workspaceId, chain.asStr, mint) claimToken } := by
  unfold fencedTx
  simp only [run_bind_ok, control_ok, lockClaim_ok, releaseClaim_ok, run_pure, Except.ok.injEq, Prod.mk.injEq]
  constructor
  · rintro ⟨-, u, ⟨hbegin, rfl⟩, -, v, ⟨hlock, hheld, rfl⟩, n, w, hon, -, x, ⟨hrelease, rfl⟩, -, y,
      ⟨hcommit, rfl⟩, rfl, rfl⟩
    exact ⟨hbegin, hlock, hrelease, hcommit, hheld, w, hon, rfl⟩
  · rintro ⟨hbegin, hlock, hrelease, hcommit, hheld, u, hon, rfl⟩
    exact ⟨(), s, ⟨hbegin, rfl⟩, (), s, ⟨hlock, hheld, rfl⟩, out, u, hon, (), _, ⟨hrelease, rfl⟩, (), _,
      ⟨hcommit, rfl⟩, rfl, rfl⟩

/-- A claim that is held is deleted by the release, and no other. -/
theorem release_held {claims : EvalClaims} {claim : EvalClaim} (h : claims key = some claim)
    (hheld : claim.heldBy claimToken dbNow = true) :
    claim.claimedBy = claimToken ∧ releaseEvalClaim claims key claimToken = claims.set key none := by
  simp only [EvalClaim.heldBy, Bool.and_eq_true, beq_iff_eq] at hheld
  refine ⟨hheld.1, ?_⟩
  rw [releaseEvalClaim, Table.deleteWhere, h, Option.filter_some]
  simp [hheld.1]

theorem mem_of_ite {c : Prop} [Decidable c] {code other : String} {rest : Option String} {codes : List String}
    (h : (if c then some other else rest) = some code) (hother : other ∈ codes)
    (hrest : rest = some code → code ∈ codes) : code ∈ codes := by
  split at h
  · exact Option.some.inj h ▸ hother
  · exact hrest h

theorem entryRejection_mem (h : entryRejection now config token market clusters wallets = some code) :
    code ∈ rejectionCodes := by
  unfold entryRejection at h
  refine mem_of_ite h (by decide) fun h => mem_of_ite h (by decide) fun h => mem_of_ite h (by decide) fun h =>
    mem_of_ite h (by decide) fun h => mem_of_ite h (by decide) fun h => mem_of_ite h ?_ fun h =>
    mem_of_ite h (by decide) fun h => mem_of_ite h (by decide) fun h => mem_of_ite h (by decide) fun h =>
    mem_of_ite h (by decide) fun h => ?_
  · -- the risk gate has two codes
    split <;> decide
  · cases h

/-- A transaction that ends well has written its row, its signal and its claim. -/
theorem fencedTx_written (h : fencedTx faults id dbNow workspaceId chain mint now config token market clusters wallets
      narrative claimToken s = .ok (out, t)) :
    Written (workspaceId, chain.asStr, mint) claimToken (entryRejection now config token market clusters wallets)
      s t out := by
  obtain ⟨-, -, -, -, ⟨claim, hclaim, hheld⟩, u, hon, rfl⟩ := fencedTx_ok.mp h
  obtain ⟨hby, hrelease⟩ := release_held hclaim hheld
  have hon := evaluateTokenOnTx_ok.mp hon
  cases hcode : entryRejection now config token market clusters wallets with
  | some code =>
    rw [hcode] at hon
    obtain ⟨-, rfl, rfl⟩ := hon
    refine ⟨⟨_, rfl, rfl, rfl, rfl⟩, fun c hc => ?_, ⟨rfl, rfl⟩, claim, hclaim, hby, hrelease⟩
    exact entryRejection_mem (hcode.trans hc)
  | none =>
    rw [hcode] at hon
    obtain ⟨-, -, -, rfl, rfl⟩ := hon
    exact ⟨⟨_, rfl, rfl, rfl, rfl⟩, fun c hc => (by cases hc), ⟨_, rfl, rfl, rfl⟩, claim, hclaim, hby, hrelease⟩

/-- Without a fault, the gates write the rows that `evaluateTokenOn` gives. -/
theorem evaluateTokenOnTx_eq : evaluateTokenOnTx (fun _ => none) id workspaceId chain mint now config token market
      clusters wallets narrative s =
    (evaluateTokenOn s.signals workspaceId chain mint now config token market clusters wallets narrative).map fun out =>
      (out.signal.map fun _ => id,
        ⟨s.signals ++ Claims.signalRows out id, s.evaluations ++ [out.evaluation], s.claims⟩) := by
  unfold evaluateTokenOnTx evaluateTokenOn
  dsimp only
  cases entryRejection now config token market clusters wallets with
  | some code =>
    simp only [Except.map, Claims.signalRows, Option.map_none, Option.toList_none, List.append_nil]
    rfl
  | none =>
    dsimp only
    by_cases hdup : s.signals.any (fun row => row.key ==
        (entrySignal workspaceId chain mint now token market clusters wallets narrative).key) = true
    · simp only [run_bind, insertSignal, statement, if_pos hdup, error_bind]
      unfold entrySignal entryEvidence at hdup
      rw [if_pos hdup]
      rfl
    · simp only [run_bind, insertSignal, statement, if_neg hdup, ok_bind]
      unfold entrySignal entryEvidence at hdup
      rw [if_neg hdup]
      rfl

/-- Without a fault, the transaction does to the store what a write of the passes does. -/
theorem evaluateTokenFencedIn_eq : evaluateTokenFencedIn (fun _ => none) id dbNow workspaceId chain mint now config
      token market clusters wallets narrative claimToken s =
    match evaluateTokenFenced s.claims dbNow s.signals workspaceId chain mint now config token market clusters wallets
      narrative claimToken with
    | .ok (out, claims) => (.ok (out.signal.map fun _ => id),
        ⟨s.signals ++ Claims.signalRows out id, s.evaluations ++ [out.evaluation], claims⟩)
    | .error e => (.error e, s) := by
  unfold evaluateTokenFenced evaluateTokenFencedIn commit fencedTx
  dsimp only
  by_cases hheld : s.claims.affects (workspaceId, chain.asStr, mint) (EvalClaim.heldBy · claimToken dbNow) = true
  · simp only [run_bind, control, lockClaim, releaseClaim, statement, if_pos hheld, ok_bind, evaluateTokenOnTx_eq]
    cases evaluateTokenOn s.signals workspaceId chain mint now config token market clusters wallets narrative with
    | error e => rfl
    | ok out => rfl
  · simp only [run_bind, control, lockClaim, statement, if_neg hheld, ok_bind, error_bind]

end

/-! ## The two gates -/

/-- The thresholds under which `evaluate_token_on` evaluates. -/
def gateThresholds (config : SignalsConfig) : GateThresholds :=
  { GateThresholds.default with
    maxTokenAgeHours := config.entryMaxTokenAgeHours
    minLiquidityUsd := config.entryMinLiquidityUsd
    maxMarketAgeSeconds := asI64 config.marketMaxAgeSeconds }

/-- The input says of the token what the evaluation is asked about: its flags are the
four known ones, its liquidity is an integer, and the completeness of its history is
rounded to the nearest. -/
structure Corresponds (now : DateTime) (token : TokenGate) (market : MarketGate) (clusters : ClusterSummary)
    (wallets : WalletEligibility) (input : EntryGateInput) : Prop where
  eligibleClusters : input.eligibleClusters = clusters.eligibleClusters
  meaningfulBuys : input.meaningfulBuys = clusters.meaningfulBuys
  lifecycleSupported : input.lifecycleSupported =
    (token.lifecycle.entrySupported && token.lifecycle != .unsupported)
  tokenAgeHours : input.tokenAgeHours = token.ageHours
  liquidityUsd : market.liquidityUsd = input.liquidityUsd.map fun l => (l : Rat)
  riskFlags : token.riskFlags = input.riskFlags.map RiskFlag.asStr
  marketAgeSeconds : input.marketAgeSeconds = market.observedAt.map (ageSeconds now)
  maxSkill : input.maxSkill = wallets.maxSkill
  maxCopyability : input.maxCopyability = wallets.maxCopyability
  minHistoryCompleteness : Nearest {g | IsF64 g} wallets.minHistoryCompleteness input.minHistoryCompleteness.val

section
variable {now : DateTime} {config : SignalsConfig} {token : TokenGate} {market : MarketGate}
variable {clusters : ClusterSummary} {wallets : WalletEligibility} {input : EntryGateInput}

theorem Corresponds.tooOld (h : Corresponds now token market clusters wallets input) :
    tooOld config token = !known input.tokenAgeHours fun age => age ≤ (gateThresholds config).maxTokenAgeHours := by
  rw [h.tokenAgeHours, Signals.tooOld]
  cases token.ageHours with
  | none => rfl
  | some age =>
    simp only [known, Option.any_some, ← decide_not, not_le]
    rfl

theorem Corresponds.liquidityOk (h : Corresponds now token market clusters wallets input) :
    liquidityOk config market = known input.liquidityUsd fun l => (gateThresholds config).minLiquidityUsd ≤ l := by
  rw [Signals.liquidityOk, h.liquidityUsd]
  cases input.liquidityUsd with
  | none => rfl
  | some l => exact decide_eq_decide.mpr Nat.cast_le

theorem Corresponds.marketFresh (h : Corresponds now token market clusters wallets input) :
    marketFresh now config market =
      known input.marketAgeSeconds fun a => a ≤ (gateThresholds config).maxMarketAgeSeconds := by
  -- The bound is a name of its own, so that nothing computes with `2 ^ 64`.
  obtain ⟨bound, hbound⟩ : ∃ bound, asI64 config.marketMaxAgeSeconds = bound := ⟨_, rfl⟩
  have hmax : (gateThresholds config).maxMarketAgeSeconds = bound := by
    dsimp only [gateThresholds]
    exact hbound
  rw [h.marketAgeSeconds, Signals.marketFresh, hbound, hmax]
  cases market.observedAt with
  | none => rfl
  | some t => rfl

/-- The flags of the one gate are the flags of the other. -/
theorem Corresponds.flags (h : Corresponds now token market clusters wallets input) :
    (token.riskFlags.any (· == "wash_trading") = input.riskFlags.contains .washTrading) ∧
    token.riskFlags.any criticalFlag = (input.riskFlags.contains .washTrading ||
      input.riskFlags.any fun f => f == .criticalRisk || f == .honeypot || f == .rugged) := by
  rw [h.riskFlags]
  generalize input.riskFlags = flags
  induction flags with
  | nil => exact ⟨rfl, rfl⟩
  | cons f flags ih =>
    simp only [List.map_cons, List.any_cons, List.contains_cons, ih.1, ih.2]
    cases f <;> simp [RiskFlag.asStr, criticalFlag]

/-- A history that is complete enough is so as a binary64 number; of one that is not,
the hypothesis says it. -/
theorem Corresponds.incomplete (h : Corresponds now token market clusters wallets input)
    (hbelow : wallets.minHistoryCompleteness < 4 / 5 → input.minHistoryCompleteness.val < fourFifths.val) :
    input.minHistoryCompleteness.val < (gateThresholds config).minHistoryCompleteness.val ↔
      wallets.minHistoryCompleteness < 4 / 5 := by
  refine ⟨fun hlt => ?_, hbelow⟩
  by_contra hge
  exact absurd hlt (not_lt.mpr (h.minHistoryCompleteness.le_of_le (fourFifths_nearest (by norm_num) le_rfl)
    (not_lt.mp hge)))

/-- The first gate that fails is the same for both. -/
theorem evaluateEntryGate_code (h : Corresponds now token market clusters wallets input)
    (hbelow : wallets.minHistoryCompleteness < 4 / 5 → input.minHistoryCompleteness.val < fourFifths.val) :
    (evaluateEntryGate input (gateThresholds config)).code =
      entryRejection now config token market clusters wallets := by
  have hlifecycle : (!token.lifecycle.entrySupported || token.lifecycle == .unsupported) =
      !input.lifecycleSupported := by
    rw [h.lifecycleSupported, Bool.not_and, bne, Bool.not_not]
  obtain ⟨hwash, hcritical⟩ := h.flags
  unfold evaluateEntryGate entryRejection
  rw [hlifecycle, h.tooOld, h.liquidityOk, h.marketFresh, hwash, hcritical, ← h.eligibleClusters, ← h.meaningfulBuys,
    ← h.maxSkill, ← h.maxCopyability]
  simp only [apply_ite GateOutcome.code, h.incomplete hbelow]
  -- The risk gate is split in two on the one side, and has two codes on the other.
  cases input.riskFlags.contains .washTrading with
  | true => rfl
  | false => rfl

end

/-- An evaluation writes nothing, or one row, the signal that goes with it, and the
deletion of the caller's claim; and its code is that of the other gate, as far as the
completeness of the history is on the same side of 0.80 in both. -/
theorem evaluateTokenFenced_atomic (faults : Faults) (id : Int) (dbNow : DateTime) (workspaceId : Int)
    (chain : ChainKind) (mint : String) (now : DateTime) (config : SignalsConfig) (token : TokenGate)
    (market : MarketGate) (clusters : ClusterSummary) (wallets : WalletEligibility) (narrative : Option Nat)
    (claimToken : String) (store after : GateStore) (answer : Except String (Option Int))
    (h : evaluateTokenFencedIn faults id dbNow workspaceId chain mint now config token market clusters wallets narrative
      claimToken store = (answer, after)) :
    (∀ err, answer = .error err → after = store) ∧
    (∀ out, answer = .ok out → Written (workspaceId, chain.asStr, mint) claimToken
      (entryRejection now config token market clusters wallets) store after out) ∧
    ∀ input, Corresponds now token market clusters wallets input →
      (wallets.minHistoryCompleteness < 4 / 5 → input.minHistoryCompleteness.val < fourFifths.val) →
      (evaluateEntryGate input (gateThresholds config)).code =
        entryRejection now config token market clusters wallets := by
  have hafter := congrArg Prod.snd h
  have hanswer := congrArg Prod.fst h
  refine ⟨fun err he => ?_, fun out ho => ?_, fun input hinput hbelow => evaluateEntryGate_code hinput hbelow⟩
  · rw [he] at hanswer
    exact hafter.symm.trans (commit_error hanswer)
  · rw [ho] at hanswer
    have htx := commit_ok hanswer
    have hafter : (evaluateTokenFencedIn faults id dbNow workspaceId chain mint now config token market clusters wallets
      narrative claimToken store).2 = after := hafter
    rw [evaluateTokenFencedIn] at hafter
    rw [hafter] at htx
    exact fencedTx_written htx

/-! ## Histories around 0.80 -/

def goodToken : TokenGate := ⟨.graduated, some 1, []⟩

def goodMarket : MarketGate := ⟨some 50000, some 0⟩

def goodClusters : ClusterSummary := ⟨2, 3⟩

def walletsWith (completeness : Rat) : WalletEligibility := ⟨2, 80, 70, completeness⟩

def heldStore : GateStore := ⟨[], [], fun key => if key = Claims.tokenKey then some ⟨"a", 0, 600⟩ else none⟩

def goodInput : EntryGateInput := ⟨2, 3, true, some 1, some 50000, [], some 0, 80, 70, fourFifths⟩

/-- The evaluation of a token that passes every gate but the last. -/
def evaluateWith (completeness : Rat) : Except String (Option Int) × GateStore :=
  evaluateTokenFencedIn (fun _ => none) 7 0 1 .solana "mint" 0 Claims.someConfig goodToken goodMarket goodClusters
    (walletsWith completeness) none "a" heldStore

theorem goodInput_corresponds {completeness : Rat}
    (h : Nearest {g | IsF64 g} completeness fourFifths.val) :
    Corresponds 0 goodToken goodMarket goodClusters (walletsWith completeness) goodInput :=
  ⟨rfl, rfl, by decide, rfl, by decide +kernel, rfl, by decide +kernel, rfl, rfl, h⟩

/-- A history that is complete to 0.80 is accepted by both gates. -/
theorem evaluateTokenFenced_atomic_accepted : (∃ after, evaluateWith (4 / 5) = (.ok (some 7), after) ∧
      Written Claims.tokenKey "a" none heldStore after (some 7)) ∧
    evaluateEntryGate goodInput (gateThresholds Claims.someConfig) = .accepted := by
  have hentry : entryRejection 0 Claims.someConfig goodToken goodMarket goodClusters (walletsWith (4 / 5)) = none := by
    decide +kernel
  have hanswer : (evaluateWith (4 / 5)).1 = .ok (some 7) := by decide +kernel
  obtain ⟨-, hwritten, hcode⟩ := evaluateTokenFenced_atomic (fun _ => none) 7 0 1 .solana "mint" 0 Claims.someConfig
    goodToken goodMarket goodClusters (walletsWith (4 / 5)) none "a" heldStore (evaluateWith (4 / 5)).2
    (evaluateWith (4 / 5)).1 rfl
  have hcode := hcode goodInput (goodInput_corresponds (fourFifths_nearest (by norm_num) le_rfl).nearest)
    fun hlt => absurd hlt (lt_irrefl _)
  rw [hentry] at hcode
  refine ⟨⟨(evaluateWith (4 / 5)).2, Prod.ext hanswer rfl, ?_⟩, ?_⟩
  · have hrow := hwritten (some 7) hanswer
    rw [hentry] at hrow
    exact hrow
  · cases hout : evaluateEntryGate goodInput (gateThresholds Claims.someConfig) with
    | accepted => rfl
    | rejected code =>
      rw [hout] at hcode
      cases hcode

/-- The decimal is below 0.80, and the binary64 number nearest to it is that of 0.80. -/
theorem gates_differ : ∃ input, Corresponds 0 goodToken goodMarket goodClusters
      (walletsWith (79999999999999999999 / 100000000000000000000)) input ∧
    evaluateEntryGate input (gateThresholds Claims.someConfig) = .accepted ∧
    (evaluateWith (79999999999999999999 / 100000000000000000000)).1 = .ok none ∧
    (evaluateWith (79999999999999999999 / 100000000000000000000)).2.evaluations.map EvaluationRow.rejectionCode =
      [some "incomplete_history"] := by
  refine ⟨goodInput, goodInput_corresponds (fourFifths_nearest ?_ ?_).nearest, by decide +kernel, by decide +kernel,
    by decide +kernel⟩
  · norm_num
  · norm_num

end WhaleIntelligence.Signals
