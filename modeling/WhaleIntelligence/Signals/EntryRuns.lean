import WhaleIntelligence.Wallet.ScoreWallet

/- The entry evaluations over any run of the scoring and the other writers.

   The gate on the skill asks for 70, and the only writer of scores stores none above
   47. So an evaluation is rejected at that gate at the latest, whatever the labels,
   the trades, the market and the clusters are (`run_rejects`), and no signal is written. -/
namespace WhaleIntelligence.Signals
open WhaleIntelligence
open WhaleIntelligence.Wallet.Scoring (ScoringConfig scoreWallet storeWalletScore scoreRow)

/-! ## The store -/

/-- The tables that the scoring and the evaluation read, but for those they write. -/
structure World where
  dbNow : DateTime
  labels : List LabelRow
  tokens : List TokenRow
  snapshots : List SnapshotRow
  trades : List Wallet.Scoring.TradeRow
  members : List MemberRow
  claims : EvalClaims

structure EntryStore extends World where
  scores : List ScoreRow
  evaluations : List EvaluationRow
  signals : List SignalRow

/-- The tables as an evaluation sees them. -/
def EntryStore.db (s : EntryStore) : Db where
  dbNow := s.dbNow
  labels := s.labels
  tokens := s.tokens
  snapshots := s.snapshots
  trades := s.trades.map (·.toTradeRow)
  members := s.members
  scores := s.scores
  signals := s.signals
  claims := s.claims

/-! ## Events -/

/-- What happens to the store. -/
inductive EntryEvent where
  /-- The other writers leave these tables. -/
  | world (w : World)
  /-- `score_wallet`. -/
  | score (workspaceId : Int) (chain : ChainKind) (address : String) (asOf : DateTime) (config : ScoringConfig)
  /-- `evaluate_token_signals_impl`; a signal gets this id. -/
  | evaluate (workspaceId : Int) (chain : ChainKind) (mint : String) (now writeNow : DateTime) (config : SignalsConfig)
      (claimToken : Option String) (id : Int)

/-- A call that fails leaves the store as it was. -/
def EntryStore.step (s : EntryStore) : EntryEvent → EntryStore
  | .world w => { s with toWorld := w }
  | .score workspaceId chain address asOf config =>
    match scoreWallet s.dbNow s.labels s.trades s.scores workspaceId chain address asOf config with
    | .error _ => s
    | .ok (_, scores) => { s with scores := scores }
  | .evaluate workspaceId chain mint now writeNow config claimToken id =>
    match evaluateTokenSignalsImpl s.db workspaceId chain mint now writeNow config claimToken with
    | .error _ => s
    | .ok (out, claims) =>
      { s with
        claims := claims
        evaluations := s.evaluations ++ [out.evaluation]
        signals := s.signals ++ (out.signal.map (⟨·, id⟩)).toList }

def EntryStore.run (s : EntryStore) (events : List EntryEvent) : EntryStore := events.foldl EntryStore.step s

/-! ## Scores -/

/-- The codes of the gates up to the skill. -/
def earlyCodes : List String :=
  ["insufficient_clusters", "insufficient_buys", "unsupported_lifecycle", "token_too_old", "insufficient_liquidity",
    "wash_risk", "critical_risk", "stale_market", "ineligible_skill"]

/-- No score reaches the bar. -/
def LowSkill (scores : List ScoreRow) : Prop := ∀ row ∈ scores, row.skillScore < 70

/-- The row is that of an evaluation that was rejected at the skill, or before it. -/
def RejectedEarly (row : EvaluationRow) : Prop :=
  row.status = "rejected" ∧ ∃ code ∈ earlyCodes, row.rejectionCode = some code

section
variable {s : EntryStore} {scores scores' : List ScoreRow} {eligible : List String} {chain : ChainKind}
  {workspaceId : Int} {mint address : String} {now writeNow asOf : DateTime} {config : SignalsConfig}
  {claimToken : Option String}

theorem LowSkill.stored {row : ScoreRow} (h : LowSkill scores) (hrow : row.skillScore < 70) :
    LowSkill (storeWalletScore scores row) := by
  unfold storeWalletScore
  split
  · exact h
  · intro r hr
    rcases List.mem_append.mp hr with hr | hr
    · exact h r hr
    · rw [List.mem_singleton.mp hr]
      exact hrow

/-- The scoring stores no high skill. -/
theorem LowSkill.scored (h : LowSkill scores) {dbNow : DateTime} {labels : List LabelRow}
    {trades : List Wallet.Scoring.TradeRow} {scoring : ScoringConfig} {result : Option Wallet.Scoring.WalletScoreResult}
    (hscore : scoreWallet dbNow labels trades scores workspaceId chain address asOf scoring = .ok (result, scores')) :
    LowSkill scores' := by
  unfold scoreWallet at hscore
  split at hscore
  · cases hscore
  · split at hscore
    · obtain ⟨-, rfl⟩ := Prod.mk.inj (Except.ok.inj hscore)
      exact h
    · split at hscore
      · cases hscore
      · rename_i inputs hinputs
        obtain ⟨r, hr, -, hskill, -⟩ := (Wallet.Scoring.runtime_of_scoreInputs hinputs).result scoring
        rw [hr] at hscore
        obtain ⟨-, rfl⟩ := Prod.mk.inj (Except.ok.inj hscore)
        apply h.stored
        have hcast : asI32 r.skill = r.skill := Int.bmod_eq_of_le (by omega) (by omega)
        rw [scoreRow]
        dsimp only
        rw [hcast]
        omega

/-- The best of low skills is low, and so is the skill of no wallet. -/
theorem LowSkill.best (h : LowSkill s.scores) (chain : ChainKind) (eligible : List String) :
    (walletEligibility (bestScoreAmong s.db chain eligible)).maxSkill < 70 := by
  cases hbest : bestScoreAmong s.db chain eligible with
  | none => exact (by decide : 0 < 70)
  | some row =>
    have hmem : row ∈ s.scores := by
      unfold bestScoreAmong at hbest
      split at hbest
      · cases hbest
      · exact List.mem_of_mem_filter (Query.latest_spec hbest).1
    have hlow := h row hmem
    show asU32 (max row.skillScore 0) < 70
    rw [asU32]
    omega

/-! ## The gate -/

/-- A skill below the bar fails its gate, unless an earlier one fails. -/
theorem entryRejection_early {wallets : WalletEligibility} (h : wallets.maxSkill < 70) (now : DateTime)
    (config : SignalsConfig) (token : TokenGate) (market : MarketGate) (clusters : ClusterSummary) :
    ∃ code ∈ earlyCodes, entryRejection now config token market clusters wallets = some code := by
  unfold entryRejection
  split_ifs
  all_goals exact ⟨_, by decide, rfl⟩

theorem evaluateTokenOn_early {signals : List SignalRow} {token : TokenGate} {market : MarketGate}
    {clusters : ClusterSummary} {wallets : WalletEligibility} {narrative : Option Nat} {out : Evaluated}
    (hskill : wallets.maxSkill < 70) (h : evaluateTokenOn signals workspaceId chain mint now config token market
      clusters wallets narrative = .ok out) : RejectedEarly out.evaluation ∧ out.signal = none := by
  obtain ⟨code, hmem, hcode⟩ := entryRejection_early hskill now config token market clusters
  simp only [evaluateTokenOn, hcode] at h
  obtain rfl := Except.ok.inj h
  exact ⟨⟨rfl, code, hmem, rfl⟩, rfl⟩

theorem alphaInputs_wallets {db : Db} {i : AlphaInputs} (h : alphaInputs db workspaceId chain mint now = .ok i) :
    ∃ eligible, i.wallets = walletEligibility (bestScoreAmong db chain eligible) := by
  rw [alphaInputs] at h
  cases hrow : db.tokens.find? (fun t => t.chain == chain.asStr && t.mint == mint) with
  | none => rw [hrow] at h; cases h
  | some row =>
    rw [hrow] at h
    cases he : eligibleSignalBuyers db workspaceId chain mint with
    | error e => simp only [he] at h; cases h
    | ok eligible =>
      simp only [he] at h
      obtain rfl := Except.ok.inj h
      exact ⟨eligible, rfl⟩

/-- What an evaluation of low skills writes. -/
theorem evaluateTokenSignalsImpl_early (h : LowSkill s.scores) {out : Evaluated} {claims : EvalClaims}
    (heval : evaluateTokenSignalsImpl s.db workspaceId chain mint now writeNow config claimToken = .ok (out, claims)) :
    RejectedEarly out.evaluation ∧ out.signal = none := by
  rw [evaluateTokenSignalsImpl] at heval
  cases hinputs : alphaInputs s.db workspaceId chain mint now with
  | error e => rw [hinputs] at heval; cases heval
  | ok i =>
    obtain ⟨eligible, hwallets⟩ := alphaInputs_wallets hinputs
    have hskill : i.wallets.maxSkill < 70 := hwallets ▸ h.best chain eligible
    have hon : ∀ r : Except String Evaluated, r = evaluateTokenOn s.db.signals workspaceId chain mint now config i.token
        i.market i.clusters i.wallets none → ∀ (claims' : EvalClaims),
        (do let out ← r; return (out, claims')) = (.ok (out, claims) : Except String (Evaluated × EvalClaims)) →
        RejectedEarly out.evaluation ∧ out.signal = none := by
      intro r hr claims' hreturn
      cases r with
      | error e => cases hreturn
      | ok out' =>
        obtain ⟨rfl, -⟩ := Prod.mk.inj (Except.ok.inj hreturn)
        exact evaluateTokenOn_early hskill hr.symm
    rw [hinputs] at heval
    cases claimToken with
    | none => exact hon _ rfl _ heval
    | some token =>
      replace heval : evaluateTokenFenced s.db.claims writeNow s.db.signals workspaceId chain mint now config i.token
        i.market i.clusters i.wallets none token = .ok (out, claims) := heval
      rw [evaluateTokenFenced] at heval
      split at heval
      · exact hon _ rfl _ heval
      · cases heval

/-! ## Runs -/

/-- What holds after any run from a store: no score is high, no signal has come, and the
    evaluations that have come were rejected. -/
structure SignalFree (s t : EntryStore) : Prop where
  scores : LowSkill t.scores
  signals : t.signals = s.signals
  evaluations : ∀ row ∈ t.evaluations, row ∈ s.evaluations ∨ RejectedEarly row

theorem SignalFree.step {t : EntryStore} (h : SignalFree s t) (e : EntryEvent) : SignalFree s (t.step e) := by
  cases e with
  | world w => exact ⟨h.scores, h.signals, h.evaluations⟩
  | score workspaceId chain address asOf scoring =>
    rw [EntryStore.step]
    split
    · exact h
    · rename_i result scores hscore
      exact ⟨h.scores.scored hscore, h.signals, h.evaluations⟩
  | evaluate workspaceId chain mint now writeNow config claimToken id =>
    rw [EntryStore.step]
    split
    · exact h
    · rename_i out claims heval
      obtain ⟨hrejected, hnone⟩ := evaluateTokenSignalsImpl_early h.scores heval
      refine ⟨h.scores, ?_, fun row hrow => ?_⟩
      · simp [hnone, h.signals]
      · rcases List.mem_append.mp hrow with hrow | hrow
        · exact h.evaluations row hrow
        · rw [List.mem_singleton.mp hrow]
          exact Or.inr hrejected

/-- From a store without a high score no entry signal is ever written, and every
    evaluation ends at the gate on the skill or at one before it. -/
theorem run_rejects (s : EntryStore) (h : LowSkill s.scores) (events : List EntryEvent) :
    SignalFree s (s.run events) := by
  have hrun : ∀ (events : List EntryEvent) (t : EntryStore), SignalFree s t → SignalFree s (t.run events) := by
    intro events
    induction events with
    | nil => exact fun t ht => ht
    | cons e events ih => exact fun t ht => ih (t.step e) (ht.step e)
  exact hrun events s ⟨h, rfl, fun row hrow => Or.inl hrow⟩

end

def trade (wallet side : String) (usdValue : Rat) (time : Int) : Wallet.Scoring.TradeRow :=
  ⟨⟨"solana", wallet, "mint", side, some usdValue⟩, some 100, some (seconds time)⟩

/-- Two wallets of two clusters that may score buy a token and sell it at twice the price. -/
def profitable : EntryStore where
  dbNow := seconds 700
  labels := [scoreLabel "ann", scoreLabel "ben"]
  tokens := [⟨"solana", "mint", "graduated", some 0, some []⟩]
  snapshots := [⟨"solana", "mint", seconds 650, some 50000⟩]
  trades := [trade "ann" "buy" 50 0, trade "ben" "buy" 50 0, trade "ann" "sell" 100 600, trade "ben" "sell" 100 600]
  members := [⟨1, "solana", "ann", none⟩, ⟨2, "solana", "ben", none⟩]
  claims := fun _ => none
  scores := []
  evaluations := []
  signals := []

/-- Both are scored, and then the token is evaluated. -/
def scoredThenEvaluated : List EntryEvent :=
  [.score 1 .solana "ann" (seconds 660) Wallet.Scoring.defaultScoring,
    .score 1 .solana "ben" (seconds 660) Wallet.Scoring.defaultScoring,
    .evaluate 1 .solana "mint" (seconds 700) (seconds 700) ⟨24, 20000, 300⟩ none 1]

theorem run_rejects_profitable : SignalFree profitable (profitable.run scoredThenEvaluated) :=
  run_rejects profitable (fun _ hrow => absurd hrow List.not_mem_nil) scoredThenEvaluated

/-- Every other gate lets the token pass. -/
example : (profitable.run scoredThenEvaluated).evaluations.map (fun row => (row.rejectionCode, row.evidence.maxSkill)) =
    [(some "ineligible_skill", 37)] := by
  decide +kernel

end WhaleIntelligence.Signals
