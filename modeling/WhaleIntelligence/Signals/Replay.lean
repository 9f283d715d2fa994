import WhaleIntelligence.Json
import WhaleIntelligence.Lib.Temporal
import WhaleIntelligence.Maintenance.Retention
import WhaleIntelligence.Wallet.ScoreWallet

/- The temporal replay: what was known at a past time, and how a signal went.

   A replay reads the tables as of the evaluation. Whatever is observed after that, it
   finds the market that the evaluation itself saw, or none once the retention has pruned
   that snapshot, and never an older one (`replay_market`). Scores and observations are
   not pruned, so that they are found as they were (`replay_evidence`). The paper metrics
   of a signal are settled after fifteen minutes (`paperMetrics_settled`).

   A market is ordered by its time alone, and two pools of a token can be observed at once.
   Which of them is read first is open: the results are for tables in any order, of which
   no two snapshots that matter share a time. -/
namespace WhaleIntelligence.Replay
open WhaleIntelligence Temporal Query
open WhaleIntelligence.Signals (Db MarketGate WalletEligibility marketGate walletEligibility bestScoreAmong)

/-! ## Tables -/

/-- A row of `market_snapshots`. -/
structure Snapshot extends Signals.SnapshotRow where
  priceUsd : Option Rat
  deriving DecidableEq, Repr

/-- A row of `wallet_scores`. -/
structure ScoreRow extends Signals.ScoreRow where
  conviction : Int
  deriving DecidableEq, Repr

/-- A row of `gmgn_token_observations`. -/
structure GmgnObservation where
  chain : String
  mint : String
  observedAt : DateTime
  endpoint : String
  payload : Json

structure ReplayStore where
  snapshots : List Snapshot
  scores : List ScoreRow
  observations : List GmgnObservation

/-- `DELETE FROM market_snapshots WHERE observed_at < now() - ($1 || ' days')::interval`. -/
def pruneMarketSnapshots (rows : List Snapshot) (now : DateTime) (retentionDays : Int) : List Snapshot :=
  rows.filter fun r => decide (Maintenance.cutoff now retentionDays ≤ r.observedAt)

/-- `store_wallet_score`: the first score of a wallet at a time stays. -/
def storeWalletScore (scores : List ScoreRow) (row : ScoreRow) : List ScoreRow :=
  if scores.any fun r => r.chain == row.chain && r.address == row.address && r.asOf == row.asOf then scores
  else scores ++ [row]

/-- `store_gmgn_token_observation`: the first one of an endpoint at a time stays. -/
def storeGmgnTokenObservation (rows : List GmgnObservation) (row : GmgnObservation) : List GmgnObservation :=
  if rows.any fun r => r.chain == row.chain && r.mint == row.mint && r.observedAt == row.observedAt &&
      r.endpoint == row.endpoint then rows
  else rows ++ [row]

/-! ## Readings -/

inductive GuardResult where
  | usable | excluded | unavailable
  deriving DecidableEq, Repr

def guard (observedAt : Option DateTime) (evaluationTime : DateTime) : GuardResult :=
  match observedAt with
  | some t => if t ≤ evaluationTime then .usable else .excluded
  | none => .unavailable

structure ReplayMarket where
  liquidityUsd : Option Rat
  priceUsd : Option Rat
  observedAt : Option DateTime
  status : String
  deriving DecidableEq, Repr

def staleMarket : ReplayMarket := ⟨none, none, none, "stale_market_replay"⟩

/-- The snapshot is of the token. -/
def isOf (chain : ChainKind) (mint : String) (r : Snapshot) : Bool := r.chain == chain.asStr && r.mint == mint

/-- `market_at`. -/
def marketAt (rows : List Snapshot) (chain : ChainKind) (mint : String) (evaluationTime : DateTime) : ReplayMarket :=
  match asOf (·.observedAt) (isOf chain mint) evaluationTime rows with
  | some r => ⟨r.liquidityUsd, r.priceUsd, some r.observedAt, "usable"⟩
  | none => staleMarket

structure ReplayScore where
  skillScore : Nat
  copyabilityScore : Nat
  conviction : Nat
  historyCompleteness : Rat
  observedAt : Option DateTime
  status : String
  deriving DecidableEq, Repr

/-- `wallet_score_at`. -/
def walletScoreAt (rows : List ScoreRow) (chain : ChainKind) (address : String) (evaluationTime : DateTime) :
    ReplayScore :=
  match asOf (·.asOf) (fun r => r.chain == chain.asStr && r.address == address) evaluationTime rows with
  | some r =>
    ⟨asU32 (max r.skillScore 0), asU32 (max r.copyabilityScore 0), asU32 (max r.conviction 0), r.historyCompleteness,
      some r.asOf, "usable"⟩
  | none => ⟨0, 0, 0, 0, none, "incomplete_history_replay"⟩

structure ReplayGmgn where
  payload : Json
  observedAt : Option DateTime
  usable : Bool

/-- `gmgn_token_at`. -/
def gmgnTokenAt (rows : List GmgnObservation) (chain : ChainKind) (mint endpoint : String)
    (evaluationTime : DateTime) : Option ReplayGmgn :=
  (asOf (·.observedAt) (fun r => r.chain == chain.asStr && r.mint == mint && r.endpoint == endpoint) evaluationTime
    rows).map fun r => ⟨r.payload, some r.observedAt, true⟩

/-! ## Runs -/

/-- The statements that write the tables. -/
inductive ReplayEvent where
  | snapshots (rows : List Snapshot)
  | prune (now : DateTime) (retentionDays : Int)
  | score (row : ScoreRow)
  | observation (row : GmgnObservation)

def ReplayStore.step (s : ReplayStore) : ReplayEvent → ReplayStore
  | .snapshots rows => { s with snapshots := s.snapshots ++ rows }
  | .prune now retentionDays => { s with snapshots := pruneMarketSnapshots s.snapshots now retentionDays }
  | .score row => { s with scores := storeWalletScore s.scores row }
  | .observation row => { s with observations := storeGmgnTokenObservation s.observations row }

def ReplayStore.run (s : ReplayStore) (events : List ReplayEvent) : ReplayStore := events.foldl ReplayStore.step s

/-- What is written is later than the time. -/
def ReplayEvent.After (t : DateTime) : ReplayEvent → Prop
  | .snapshots rows => ∀ r ∈ rows, t < r.observedAt
  | .prune _ _ => True
  | .score row => t < row.asOf
  | .observation row => t < row.observedAt

/-- The statement leaves the snapshots of the time. -/
def ReplayEvent.keeps (observedAt : DateTime) : ReplayEvent → Bool
  | .prune now retentionDays => decide (Maintenance.cutoff now retentionDays ≤ observedAt)
  | _ => true

/-- What a statement does to the snapshots. -/
def ReplayEvent.onSnapshots : ReplayEvent → Change Snapshot DateTime
  | .snapshots rows => .add rows
  | .prune now retentionDays => .drop (Maintenance.cutoff now retentionDays)
  | _ => .add []

section
variable {s : ReplayStore} {e : ReplayEvent} {events : List ReplayEvent} {rows : List Snapshot} {chain : ChainKind}
  {mint address endpoint : String} {t : DateTime} {now : DateTime} {d : Int}

/-! ## The market -/

/-- The statement of the retention task, on rows with their figures. -/
theorem pruneMarketSnapshots_maintenance {f : Snapshot → Maintenance.MarketSnapshot} {store : Maintenance.Store}
    (hf : ∀ r, (f r).observedAt = r.observedAt) (hstore : store.marketSnapshots = rows.map f) :
    (pruneMarketSnapshots rows now d).map f =
      (Maintenance.pruneMarketSnapshots ⟨now, none, [], []⟩ d store).2.marketSnapshots := by
  show _ = (store.marketSnapshots ++ []).filter fun r => !Maintenance.expiredSnapshot now d r
  rw [List.append_nil, hstore, pruneMarketSnapshots, List.filter_map]
  congr 1
  apply List.filter_congr
  intro r _
  rw [Function.comp_apply, Maintenance.expiredSnapshot, hf, ← decide_not, decide_eq_decide, Int.not_lt]

theorem snapshots_step : (s.step e).snapshots = e.onSnapshots.apply (·.observedAt) s.snapshots := by
  cases e with
  | snapshots rows => rfl
  | prune now retentionDays => rfl
  | score row => exact (List.append_nil _).symm
  | observation row => exact (List.append_nil _).symm

theorem snapshots_run : (s.run events).snapshots =
    (events.map ReplayEvent.onSnapshots).foldl (Change.apply (·.observedAt)) s.snapshots := by
  induction events generalizing s with
  | nil => rfl
  | cons e events ih =>
    show ((s.step e).run events).snapshots = _
    rw [ih, snapshots_step, List.map_cons, List.foldl_cons]

theorem After.onSnapshots (h : e.After t) : e.onSnapshots.After (·.observedAt) t := by
  cases e with
  | snapshots rows => exact h
  | prune now retentionDays => trivial
  | score row => exact List.forall_mem_nil _
  | observation row => exact List.forall_mem_nil _

theorem keeps_onSnapshots (o : DateTime) : e.onSnapshots.keeps o = e.keeps o := by
  cases e <;> rfl

/-- The market of the replay is the one that an evaluation at the time sees. -/
theorem marketGate_eq {db : Db} (hdb : db.snapshots.Perm (s.snapshots.map Snapshot.toSnapshotRow))
    (htimes : ((upTo (·.observedAt) (isOf chain mint) t s.snapshots).map (·.observedAt)).Nodup) :
    marketGate db chain mint t =
      ⟨(marketAt s.snapshots chain mint t).liquidityUsd, (marketAt s.snapshots chain mint t).observedAt⟩ := by
  have hrow : latest (·.observedAt) (db.snapshots.filter fun r =>
      r.chain == chain.asStr && r.mint == mint && decide (r.observedAt ≤ t)) =
      (asOf (·.observedAt) (isOf chain mint) t s.snapshots).map Snapshot.toSnapshotRow := by
    have hread : (s.snapshots.map Snapshot.toSnapshotRow).filter (fun r =>
        r.chain == chain.asStr && r.mint == mint && decide (r.observedAt ≤ t)) =
        (upTo (·.observedAt) (isOf chain mint) t s.snapshots).map Snapshot.toSnapshotRow := List.filter_map
    have hplain : ((s.snapshots.map Snapshot.toSnapshotRow).filter (fun r =>
        r.chain == chain.asStr && r.mint == mint && decide (r.observedAt ≤ t))).map (·.observedAt) =
        (upTo (·.observedAt) (isOf chain mint) t s.snapshots).map (·.observedAt) := by
      rw [hread, List.map_map]
      rfl
    rw [← latest_perm (hdb.symm.filter _) (hplain ▸ htimes), hread]
    exact latest_map Snapshot.toSnapshotRow fun _ => rfl
  rw [marketGate, hrow, marketAt]
  cases asOf (·.observedAt) (isOf chain mint) t s.snapshots <;> rfl

/-- The replay finds nothing that the guard excludes. -/
theorem guard_marketAt : guard (marketAt rows chain mint t).observedAt t ≠ .excluded := by
  rw [marketAt]
  split
  · next r hr =>
    rw [guard, if_pos (asOf_some hr).2.2]
    exact GuardResult.noConfusion
  · exact GuardResult.noConfusion

/-- A replay of a past evaluation, after any statements that write what is later: it finds the market that the
evaluation saw, or none, just where the retention has passed that snapshot. The tables are in any order, and no two
snapshots of the token up to the time share a time. -/
theorem replay_market {db : Db} (hdb : db.snapshots.Perm (s.snapshots.map Snapshot.toSnapshotRow))
    (htimes : ((upTo (·.observedAt) (isOf chain mint) t s.snapshots).map (·.observedAt)).Nodup)
    (hafter : ∀ e ∈ events, e.After t) (hrows : rows.Perm (s.run events).snapshots) :
    marketGate db chain mint t =
        ⟨(marketAt s.snapshots chain mint t).liquidityUsd, (marketAt s.snapshots chain mint t).observedAt⟩ ∧
      marketAt rows chain mint t =
        (if (marketAt s.snapshots chain mint t).observedAt.all fun o => events.all (·.keeps o) then
          marketAt s.snapshots chain mint t else staleMarket) ∧
      guard (marketAt rows chain mint t).observedAt t ≠ .excluded := by
  refine ⟨marketGate_eq hdb htimes, ?_, guard_marketAt⟩
  have hchanges : ∀ c ∈ events.map ReplayEvent.onSnapshots, c.After (·.observedAt) t := by
    intro c hc
    obtain ⟨e, he, rfl⟩ := List.mem_map.mp hc
    exact After.onSnapshots (hafter e he)
  rw [snapshots_run] at hrows
  have hlater := htimes.sublist ((upTo_run hchanges).map _)
  rw [marketAt, marketAt, ← asOf_perm hrows.symm hlater, asOf_run hchanges]
  cases asOf (·.observedAt) (isOf chain mint) t s.snapshots with
  | none => rfl
  | some r =>
    rw [Option.filter_some, List.all_map]
    have hkeeps : (events.all (Change.keeps r.observedAt ∘ ReplayEvent.onSnapshots)) =
        events.all (·.keeps r.observedAt) := by
      congr 1
      funext e
      exact keeps_onSnapshots r.observedAt
    rw [hkeeps]
    dsimp only [Option.all_some]
    by_cases hall : events.all (·.keeps r.observedAt) = true
    · rw [if_pos hall, if_pos hall]
    · rw [if_neg hall, if_neg hall]

end

/-- What was known of a token and a wallet. -/
def seenStore : ReplayStore where
  snapshots := [⟨⟨"solana", "mint", seconds 40, some 30000⟩, some 1⟩,
    ⟨⟨"solana", "mint", seconds 100, some 50000⟩, some 2⟩]
  scores := [⟨⟨"solana", "ann", seconds 90, 40, 90, 1⟩, 60⟩]
  observations := [⟨"solana", "mint", seconds 95, "token_info", .null⟩]

def seenDb : Db :=
  { Signals.scoredDb with
    snapshots := seenStore.snapshots.map Snapshot.toSnapshotRow
    scores := seenStore.scores.map ScoreRow.toScoreRow }

/-- What is observed on the next days, and a week's retention on the second. -/
def nextDays : List ReplayEvent :=
  [.snapshots [⟨⟨"solana", "mint", seconds 86400, some 100⟩, none⟩],
    .score ⟨⟨"solana", "ann", seconds 86400, 20, 25, 0⟩, 25⟩, .prune (seconds (2 * 86400)) 7,
    .observation ⟨"solana", "mint", seconds 90000, "token_info", .bool true⟩]

theorem nextDays_after : ∀ e ∈ nextDays, e.After (seconds 1021) := by
  simp [nextDays, ReplayEvent.After, seconds]

theorem replay_market_seen :
    marketGate seenDb .solana "mint" (seconds 1021) =
        ⟨(marketAt seenStore.snapshots .solana "mint" (seconds 1021)).liquidityUsd,
          (marketAt seenStore.snapshots .solana "mint" (seconds 1021)).observedAt⟩ ∧
      marketAt (seenStore.run nextDays).snapshots.reverse .solana "mint" (seconds 1021) =
        (if (marketAt seenStore.snapshots .solana "mint" (seconds 1021)).observedAt.all fun o =>
            nextDays.all (·.keeps o) then
          marketAt seenStore.snapshots .solana "mint" (seconds 1021) else staleMarket) ∧
      guard (marketAt (seenStore.run nextDays).snapshots.reverse .solana "mint" (seconds 1021)).observedAt
          (seconds 1021) ≠ .excluded :=
  replay_market (.refl _) (by decide) nextDays_after (List.reverse_perm _)

/-- The retention of the eighth day has passed the snapshot. -/
example : marketAt (seenStore.run (nextDays ++ [.prune (seconds (8 * 86400)) 7])).snapshots .solana "mint"
    (seconds 1021) = staleMarket := by
  decide

section
variable {s : ReplayStore} {e : ReplayEvent} {events : List ReplayEvent} {chain : ChainKind}
  {mint address endpoint : String} {t : DateTime}

/-! ## Scores and observations -/

/-- The statement of the scoring, on rows with their conviction. -/
theorem storeWalletScore_scoring {scores : List ScoreRow} {row : ScoreRow} :
    (storeWalletScore scores row).map ScoreRow.toScoreRow =
      Wallet.Scoring.storeWalletScore (scores.map ScoreRow.toScoreRow) row.toScoreRow := by
  rw [storeWalletScore, Wallet.Scoring.storeWalletScore, List.any_map]
  split
  · next h => exact (if_pos h).symm
  · next h =>
    rw [List.map_append]
    exact (if_neg h).symm

theorem scores_step (h : e.After t) : ∃ more, (s.step e).scores = s.scores ++ more ∧ ∀ r ∈ more, t < r.asOf := by
  cases e with
  | snapshots rows => exact ⟨[], (List.append_nil _).symm, List.forall_mem_nil _⟩
  | prune now retentionDays => exact ⟨[], (List.append_nil _).symm, List.forall_mem_nil _⟩
  | observation row => exact ⟨[], (List.append_nil _).symm, List.forall_mem_nil _⟩
  | score row =>
    show ∃ more, storeWalletScore s.scores row = s.scores ++ more ∧ _
    rw [storeWalletScore]
    split
    · exact ⟨[], (List.append_nil _).symm, List.forall_mem_nil _⟩
    · exact ⟨[row], rfl, List.forall_mem_singleton.mpr h⟩

theorem observations_step (h : e.After t) :
    ∃ more, (s.step e).observations = s.observations ++ more ∧ ∀ r ∈ more, t < r.observedAt := by
  cases e with
  | snapshots rows => exact ⟨[], (List.append_nil _).symm, List.forall_mem_nil _⟩
  | prune now retentionDays => exact ⟨[], (List.append_nil _).symm, List.forall_mem_nil _⟩
  | score row => exact ⟨[], (List.append_nil _).symm, List.forall_mem_nil _⟩
  | observation row =>
    show ∃ more, storeGmgnTokenObservation s.observations row = s.observations ++ more ∧ _
    rw [storeGmgnTokenObservation]
    split
    · exact ⟨[], (List.append_nil _).symm, List.forall_mem_nil _⟩
    · exact ⟨[row], rfl, List.forall_mem_singleton.mpr h⟩

/-- What the statements read of the scores and the observations stays. -/
theorem run_keeps (hafter : ∀ e ∈ events, e.After t) (matching : ScoreRow → Bool)
    (matching' : GmgnObservation → Bool) :
    asOf (·.asOf) matching t (s.run events).scores = asOf (·.asOf) matching t s.scores ∧
      asOf (·.observedAt) matching' t (s.run events).observations =
        asOf (·.observedAt) matching' t s.observations := by
  induction events generalizing s with
  | nil => exact ⟨rfl, rfl⟩
  | cons e events ih =>
    have he := hafter e List.mem_cons_self
    obtain ⟨scores, hscores, hlater⟩ := scores_step (s := s) he
    obtain ⟨observations, hobservations, hlater'⟩ := observations_step (s := s) he
    obtain ⟨hrun, hrun'⟩ := ih (s := s.step e) fun e' he' => hafter e' (List.mem_cons_of_mem _ he')
    constructor
    · calc asOf (·.asOf) matching t (s.run (e :: events)).scores
          = asOf (·.asOf) matching t (s.step e).scores := hrun
        _ = asOf (·.asOf) matching t s.scores := by rw [hscores, asOf_append hlater]
    · calc asOf (·.observedAt) matching' t (s.run (e :: events)).observations
          = asOf (·.observedAt) matching' t (s.step e).observations := hrun'
        _ = asOf (·.observedAt) matching' t s.observations := by rw [hobservations, asOf_append hlater']

/-- Where no score is later, the replay of a wallet is what the evaluation sees of it as the only buyer. -/
theorem walletEligibility_eq {db : Db} (hdb : db.scores = s.scores.map ScoreRow.toScoreRow)
    (hpast : ∀ r ∈ s.scores, r.asOf ≤ t) :
    walletEligibility (bestScoreAmong db chain [address]) =
      ⟨if (walletScoreAt s.scores chain address t).status = "usable" then 1 else 0,
        (walletScoreAt s.scores chain address t).skillScore,
        (walletScoreAt s.scores chain address t).copyabilityScore,
        (walletScoreAt s.scores chain address t).historyCompleteness⟩ := by
  have hrow : latest (·.asOf) (db.scores.filter fun r => r.chain == chain.asStr && [address].contains r.address) =
      (asOf (·.asOf) (fun r : ScoreRow => r.chain == chain.asStr && r.address == address) t s.scores).map
        ScoreRow.toScoreRow := by
    have hread : ∀ r ∈ s.scores, (r.chain == chain.asStr && [address].contains r.address) =
        (r.chain == chain.asStr && r.address == address && decide (r.asOf ≤ t)) := by
      intro r hr
      rw [decide_eq_true (hpast r hr), Bool.and_true, List.contains_cons, List.contains_nil, Bool.or_false]
    rw [hdb, List.filter_map, asOf, upTo, ← List.filter_congr hread]
    exact latest_map ScoreRow.toScoreRow fun _ => rfl
  rw [bestScoreAmong, if_neg (by simp), hrow, walletScoreAt]
  cases asOf (·.asOf) (fun r : ScoreRow => r.chain == chain.asStr && r.address == address) t s.scores with
  | none => rfl
  | some r => rfl

/-- A replay of a past evaluation, after any statements that write what is later: the scores of wallets and the
observations of tokens are as they were, and where no score was later by then, so is what the evaluation saw of a
wallet that was the only buyer. -/
theorem replay_evidence {db : Db} (hdb : db.scores = s.scores.map ScoreRow.toScoreRow)
    (hafter : ∀ e ∈ events, e.After t) :
    walletScoreAt (s.run events).scores chain address t = walletScoreAt s.scores chain address t ∧
      gmgnTokenAt (s.run events).observations chain mint endpoint t =
        gmgnTokenAt s.observations chain mint endpoint t ∧
      ((∀ r ∈ s.scores, r.asOf ≤ t) → walletEligibility (bestScoreAmong db chain [address]) =
        ⟨if (walletScoreAt (s.run events).scores chain address t).status = "usable" then 1 else 0,
          (walletScoreAt (s.run events).scores chain address t).skillScore,
          (walletScoreAt (s.run events).scores chain address t).copyabilityScore,
          (walletScoreAt (s.run events).scores chain address t).historyCompleteness⟩) := by
  have hscores : walletScoreAt (s.run events).scores chain address t = walletScoreAt s.scores chain address t := by
    rw [walletScoreAt, walletScoreAt, (run_keeps hafter _ fun _ => true).1]
  have hgmgn : gmgnTokenAt (s.run events).observations chain mint endpoint t =
      gmgnTokenAt s.observations chain mint endpoint t := by
    rw [gmgnTokenAt, gmgnTokenAt, (run_keeps hafter (fun _ => true) _).2]
  refine ⟨hscores, hgmgn, fun hpast => ?_⟩
  rw [hscores]
  exact walletEligibility_eq hdb hpast

end

theorem replay_evidence_seen :
    walletScoreAt (seenStore.run nextDays).scores .solana "ann" (seconds 1021) =
        walletScoreAt seenStore.scores .solana "ann" (seconds 1021) ∧
      gmgnTokenAt (seenStore.run nextDays).observations .solana "mint" "token_info" (seconds 1021) =
        gmgnTokenAt seenStore.observations .solana "mint" "token_info" (seconds 1021) ∧
      ((∀ r ∈ seenStore.scores, r.asOf ≤ seconds 1021) → walletEligibility (bestScoreAmong seenDb .solana ["ann"]) =
        ⟨if (walletScoreAt (seenStore.run nextDays).scores .solana "ann" (seconds 1021)).status = "usable" then 1
            else 0,
          (walletScoreAt (seenStore.run nextDays).scores .solana "ann" (seconds 1021)).skillScore,
          (walletScoreAt (seenStore.run nextDays).scores .solana "ann" (seconds 1021)).copyabilityScore,
          (walletScoreAt (seenStore.run nextDays).scores .solana "ann" (seconds 1021)).historyCompleteness⟩) :=
  replay_evidence rfl nextDays_after

/-! ## Paper metrics -/

structure PaperMetrics where
  latencyFillSeconds : Option Int
  slippage : Option Rat
  maxFavorableExcursion : Option Rat
  maxAdverseExcursion : Option Rat
  liquidity1mUsd : Option Rat
  liquidity5mUsd : Option Rat
  liquidity15mUsd : Option Rat
  sellBeforeCopy : Bool
  deriving DecidableEq, Repr

def PaperMetrics.default : PaperMetrics := ⟨none, none, none, none, none, none, none, false⟩

def elapsed (signalAt : DateTime) (r : Snapshot) : Int := numSeconds (r.observedAt - signalAt)

/-- A window takes the liquidity of a row in it, unless it has one already. -/
def fillWindow (signalAt : DateTime) (window : Int) (known : Option Rat) (r : Snapshot) : Option Rat :=
  if elapsed signalAt r ≤ window && known.isNone then r.liquidityUsd else known

/-- The body of the loop. -/
def PaperMetrics.observe (signalAt : DateTime) (m : PaperMetrics) (r : Snapshot) : PaperMetrics :=
  { m with
    liquidity1mUsd := fillWindow signalAt 60 m.liquidity1mUsd r
    liquidity5mUsd := fillWindow signalAt 300 m.liquidity5mUsd r
    liquidity15mUsd := fillWindow signalAt 900 m.liquidity15mUsd r }

/-- The snapshots of a token after its signal. -/
def isAfterSignal (chain : ChainKind) (mint : String) (signalAt : DateTime) (r : Snapshot) : Bool :=
  isOf chain mint r && decide (signalAt < r.observedAt)

/-- `ORDER BY observed_at ASC`. -/
def ascending (rows : List Snapshot) : List Snapshot := rows.insertionSort fun a b => a.observedAt ≤ b.observedAt

/-- `paper_metrics`. -/
def paperMetrics (rows : List Snapshot) (chain : ChainKind) (mint : String) (signalAt : DateTime) : PaperMetrics :=
  ((ascending (rows.filter (isAfterSignal chain mint signalAt))).take 50).foldl (PaperMetrics.observe signalAt) .default

/-- The row is in the window. -/
def inWindow (signalAt : DateTime) (window : Int) (r : Snapshot) : Bool := decide (elapsed signalAt r ≤ window)

/-- The first liquidity that is known in a window, of fifty rows after the signal. -/
def firstKnown (rows : List Snapshot) (chain : ChainKind) (mint : String) (signalAt : DateTime) (window : Int) :
    Option Rat :=
  (((ascending (rows.filter (isAfterSignal chain mint signalAt))).take 50).filter (inWindow signalAt window)).findSome?
    (·.liquidityUsd)

section
variable {s : ReplayStore} {events : List ReplayEvent} {rows : List Snapshot} {chain : ChainKind} {mint : String}
  {signalAt : DateTime} {window window' : Int} {known : Option Rat} {m : PaperMetrics}

theorem foldl_fillWindow : rows.foldl (fillWindow signalAt window) known =
    known.or ((rows.filter (inWindow signalAt window)).findSome? (·.liquidityUsd)) := by
  induction rows generalizing known with
  | nil => simp
  | cons r rows ih =>
    rw [List.foldl_cons, ih, fillWindow]
    by_cases hr : elapsed signalAt r ≤ window
    · cases known with
      | some x => simp
      | none => cases hl : r.liquidityUsd <;> simp [inWindow, hr, hl]
    · simp [inWindow, hr]

theorem foldl_observe : rows.foldl (PaperMetrics.observe signalAt) m =
    { m with
      liquidity1mUsd := rows.foldl (fillWindow signalAt 60) m.liquidity1mUsd
      liquidity5mUsd := rows.foldl (fillWindow signalAt 300) m.liquidity5mUsd
      liquidity15mUsd := rows.foldl (fillWindow signalAt 900) m.liquidity15mUsd } := by
  induction rows generalizing m with
  | nil => rfl
  | cons r rows ih =>
    rw [List.foldl_cons, ih]
    rfl

theorem paperMetrics_eq : paperMetrics rows chain mint signalAt =
    { PaperMetrics.default with
      liquidity1mUsd := firstKnown rows chain mint signalAt 60
      liquidity5mUsd := firstKnown rows chain mint signalAt 300
      liquidity15mUsd := firstKnown rows chain mint signalAt 900 } := by
  rw [paperMetrics, foldl_observe, foldl_fillWindow, foldl_fillWindow, foldl_fillWindow]
  rfl

theorem elapsed_mono {a b : Snapshot} (h : a.observedAt ≤ b.observedAt) : elapsed signalAt a ≤ elapsed signalAt b :=
  Int.tdiv_le_tdiv (by decide) (Int.sub_le_sub_right h signalAt)

theorem ascending_window (rows : List Snapshot) (signalAt : DateTime) (window : Int) :
    (ascending rows).Pairwise fun a b => inWindow signalAt window b = true → inWindow signalAt window a = true := by
  have : Std.Total fun a b : Snapshot => a.observedAt ≤ b.observedAt := ⟨fun a b => Int.le_total _ _⟩
  have : IsTrans Snapshot fun a b => a.observedAt ≤ b.observedAt := ⟨fun _ _ _ => Int.le_trans⟩
  have hsorted := List.pairwise_insertionSort (fun a b : Snapshot => a.observedAt ≤ b.observedAt) rows
  refine hsorted.imp fun {a b} hab hb => ?_
  rw [inWindow, decide_eq_true_eq] at hb ⊢
  exact Int.le_trans (elapsed_mono hab) hb

theorem ascending_filter (rows : List Snapshot) (p : Snapshot → Bool) :
    (ascending rows).filter p = ascending (rows.filter p) := by
  have : Std.Total fun a b : Snapshot => a.observedAt ≤ b.observedAt := ⟨fun a b => Int.le_total _ _⟩
  have : IsTrans Snapshot fun a b => a.observedAt ≤ b.observedAt := ⟨fun _ _ _ => Int.le_trans⟩
  exact insertionSort_filter.symm

/-- What is known in a window is known in a longer one. -/
theorem firstKnown_mono (h : window ≤ window') {x : Rat} (hx : firstKnown rows chain mint signalAt window = some x) :
    firstKnown rows chain mint signalAt window' = some x := by
  have hlonger : ∀ r, inWindow signalAt window r = true → inWindow signalAt window' r = true := by
    intro r hr
    rw [inWindow, decide_eq_true_eq] at hr ⊢
    omega
  have hsorted := (ascending_window (rows.filter (isAfterSignal chain mint signalAt)) signalAt window).sublist
    (List.take_sublist 50 _)
  exact (filter_narrower hsorted hlonger).findSome?_eq_some hx

/-- Only the rows of the window matter, in any order where no two share a time. -/
theorem firstKnown_perm {rows' : List Snapshot}
    (h : ((rows'.filter (isAfterSignal chain mint signalAt)).filter (inWindow signalAt window)).Perm
      ((rows.filter (isAfterSignal chain mint signalAt)).filter (inWindow signalAt window)))
    (htimes : (((rows.filter (isAfterSignal chain mint signalAt)).filter (inWindow signalAt window)).map
      (·.observedAt)).Nodup) :
    firstKnown rows' chain mint signalAt window = firstKnown rows chain mint signalAt window := by
  rw [firstKnown, firstKnown, filter_take (ascending_window _ signalAt window),
    filter_take (ascending_window _ signalAt window), ascending_filter, ascending_filter, ascending, ascending,
    insertionSort_perm h.symm htimes]

/-- One statement that writes only what is later than the windows, and keeps what is later than the signal. -/
theorem window_step {e : ReplayEvent} (hwindow : window ≤ 900) (hafter : e.After (signalAt + seconds 901))
    (hkeeps : e.keeps signalAt = true) :
    ((s.step e).snapshots.filter (isAfterSignal chain mint signalAt)).filter (inWindow signalAt window) =
      (s.snapshots.filter (isAfterSignal chain mint signalAt)).filter (inWindow signalAt window) := by
  cases e with
  | score row => rfl
  | observation row => rfl
  | snapshots rows =>
    have hnone : (rows.filter (isAfterSignal chain mint signalAt)).filter (inWindow signalAt window) = [] := by
      rw [List.filter_eq_nil_iff]
      intro r hr hin
      have hlater : signalAt + seconds 901 < r.observedAt := hafter r (List.mem_of_mem_filter hr)
      have hlong : 901 ≤ elapsed signalAt r := by
        have hdiff : seconds 901 ≤ r.observedAt - signalAt := Int.le_sub_left_of_add_le (Int.le_of_lt hlater)
        exact Int.tdiv_le_tdiv (by decide : (0 : Int) < 1000000000) hdiff
      rw [inWindow, decide_eq_true_eq] at hin
      omega
    show ((s.snapshots ++ rows).filter _).filter _ = _
    rw [List.filter_append, List.filter_append, hnone, List.append_nil]
  | prune now retentionDays =>
    have hcutoff : Maintenance.cutoff now retentionDays ≤ signalAt := of_decide_eq_true hkeeps
    congr 1
    show (s.snapshots.filter _).filter _ = _
    rw [List.filter_filter]
    apply List.filter_congr
    intro r _
    cases hr : isAfterSignal chain mint signalAt r with
    | false => rfl
    | true =>
      have hlater : signalAt < r.observedAt := of_decide_eq_true (Bool.and_eq_true_iff.mp hr).2
      rw [Bool.true_and, decide_eq_true_eq]
      exact Int.le_of_lt (Int.lt_of_le_of_lt hcutoff hlater)

theorem window_run (hwindow : window ≤ 900) (hafter : ∀ e ∈ events, e.After (signalAt + seconds 901))
    (hkeeps : ∀ e ∈ events, e.keeps signalAt = true) :
    ((s.run events).snapshots.filter (isAfterSignal chain mint signalAt)).filter (inWindow signalAt window) =
      (s.snapshots.filter (isAfterSignal chain mint signalAt)).filter (inWindow signalAt window) := by
  induction events generalizing s with
  | nil => rfl
  | cons e events ih =>
    have hrest := ih (s := s.step e) (fun e he => hafter e (List.mem_cons_of_mem _ he))
      fun e he => hkeeps e (List.mem_cons_of_mem _ he)
    exact hrest.trans (window_step hwindow (hafter e List.mem_cons_self) (hkeeps e List.mem_cons_self))

/-- The metrics of a signal are settled after fifteen minutes, for as long as the retention keeps what is later than the
signal; and no two windows differ that both have a liquidity. The tables are in any order, and no two snapshots of the
token in the fifteen minutes share a time. -/
theorem paperMetrics_settled {rows' : List Snapshot} (hrows : rows.Perm s.snapshots)
    (htimes : (((s.snapshots.filter (isAfterSignal chain mint signalAt)).filter (inWindow signalAt 900)).map
      (·.observedAt)).Nodup)
    (hafter : ∀ e ∈ events, e.After (signalAt + seconds 901)) (hkeeps : ∀ e ∈ events, e.keeps signalAt = true)
    (hrows' : rows'.Perm (s.run events).snapshots) :
    paperMetrics rows' chain mint signalAt = paperMetrics rows chain mint signalAt ∧
      (∀ x, (paperMetrics rows chain mint signalAt).liquidity1mUsd = some x →
        (paperMetrics rows chain mint signalAt).liquidity5mUsd = some x) ∧
      ∀ x, (paperMetrics rows chain mint signalAt).liquidity5mUsd = some x →
        (paperMetrics rows chain mint signalAt).liquidity15mUsd = some x := by
  have hsame : ∀ window ≤ 900, firstKnown rows' chain mint signalAt window =
      firstKnown rows chain mint signalAt window := by
    intro window hwindow
    have hread := (hrows.filter (isAfterSignal chain mint signalAt)).filter (inWindow signalAt window)
    have hread' := (hrows'.filter (isAfterSignal chain mint signalAt)).filter (inWindow signalAt window)
    rw [window_run hwindow hafter hkeeps] at hread'
    -- a shorter window has no more rows
    have hshorter : ∀ r, inWindow signalAt window r = true → inWindow signalAt 900 r = true := by
      intro r hr
      rw [inWindow, decide_eq_true_eq] at hr ⊢
      omega
    have hdistinct := htimes.sublist ((List.monotone_filter_right _ hshorter).map (·.observedAt))
    exact (firstKnown_perm hread' hdistinct).trans (firstKnown_perm hread hdistinct).symm
  rw [paperMetrics_eq, paperMetrics_eq, hsame 60 (by decide), hsame 300 (by decide), hsame 900 (by decide)]
  exact ⟨rfl, fun x => firstKnown_mono (by decide), fun x => firstKnown_mono (by decide)⟩

end

/-- A signal between the two snapshots. -/
theorem paperMetrics_settled_seen :
    paperMetrics (seenStore.run nextDays).snapshots.reverse .solana "mint" (seconds 50) =
        paperMetrics seenStore.snapshots .solana "mint" (seconds 50) ∧
      (∀ x, (paperMetrics seenStore.snapshots .solana "mint" (seconds 50)).liquidity1mUsd = some x →
        (paperMetrics seenStore.snapshots .solana "mint" (seconds 50)).liquidity5mUsd = some x) ∧
      ∀ x, (paperMetrics seenStore.snapshots .solana "mint" (seconds 50)).liquidity5mUsd = some x →
        (paperMetrics seenStore.snapshots .solana "mint" (seconds 50)).liquidity15mUsd = some x :=
  paperMetrics_settled (.refl _) (by decide) (by simp [nextDays, ReplayEvent.After, seconds]) (by decide)
    (List.reverse_perm _)

end WhaleIntelligence.Replay
