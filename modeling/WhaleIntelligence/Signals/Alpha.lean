import WhaleIntelligence.Lib.Query
import WhaleIntelligence.Signals.Gates

/- What an entry evaluation reads: `evaluate_token_signals_impl`.

   The buyers that the policy of the workspace allows are settled once, and the
   clusters, the meaningful buys and the best score are drawn from them. So a wallet
   that the policy does not let score is not in the outcome, whatever it traded and
   whichever clusters and scores it has (`evaluateTokenSignals_policy`). -/
namespace WhaleIntelligence.Signals
open WhaleIntelligence Query

/-! ## Rows -/

/-- A row of `wallet_labels`. -/
structure LabelRow where
  workspaceId : Int
  chain : String
  address : String
  disposition : String
  manual : Bool
  expiresAt : Option DateTime
  revokedAt : Option DateTime
  deriving DecidableEq, Repr

/-- A row of `tokens`. The flags are `none` where the column is no list of texts. -/
structure TokenRow where
  chain : String
  mint : String
  lifecycleState : String
  firstSeenAt : Option DateTime
  riskFlags : Option (List String)
  deriving DecidableEq, Repr

/-- A row of `market_snapshots`. -/
structure SnapshotRow where
  chain : String
  mint : String
  observedAt : DateTime
  liquidityUsd : Option Rat
  deriving DecidableEq, Repr

/-- A row of `trades`. -/
structure TradeRow where
  chain : String
  wallet : String
  mint : String
  side : String
  usdValue : Option Rat
  deriving DecidableEq, Repr

/-- A row of `wallet_cluster_members`. -/
structure MemberRow where
  clusterId : Int
  chain : String
  address : String
  revokedAt : Option DateTime
  deriving DecidableEq, Repr

/-- A row of `wallet_scores`. -/
structure ScoreRow where
  chain : String
  address : String
  asOf : DateTime
  skillScore : Int
  copyabilityScore : Int
  historyCompleteness : Rat
  deriving DecidableEq, Repr

/-- The tables of an evaluation, and the clock of the database. -/
structure Db where
  dbNow : DateTime
  labels : List LabelRow
  tokens : List TokenRow
  snapshots : List SnapshotRow
  trades : List TradeRow
  members : List MemberRow
  scores : List ScoreRow
  signals : List SignalRow
  claims : EvalClaims

/-! ## Policy -/

def labelVocabulary : String := "; the label vocabulary is [skip, flow_only, watch, score]"

def unknownDisposition (value : String) : String := "unknown wallet disposition '" ++ value ++ "'" ++ labelVocabulary

/-- Lower is more restrictive. -/
def restrictivenessRank : String → Except String Nat
  | "skip" => .ok 0
  | "flow_only" => .ok 1
  | "watch" => .ok 2
  | "score" => .ok 3
  | other => .error (unknownDisposition other)

/-- A manual label goes before an automatic one, and then the more restrictive one. -/
def overrides (candidate current : Bool × Nat × String) : Bool :=
  (candidate.1 && !current.1) || (candidate.1 == current.1 && candidate.2.1 < current.2.1)

def mergeLabel (best : Option (Bool × Nat × String)) (row : LabelRow) :
    Except String (Option (Bool × Nat × String)) := do
  let restrictiveness ← restrictivenessRank row.disposition
  let candidate := (row.manual, restrictiveness, row.disposition)
  match best with
  | none => return some candidate
  | some current => return some (if overrides candidate current then candidate else current)

/-- The label is neither revoked nor expired. -/
def LabelRow.active (row : LabelRow) (dbNow : DateTime) : Bool :=
  row.revokedAt.isNone && row.expiresAt.all fun t => dbNow < t

def activeDisposition (dbNow : DateTime) (labels : List LabelRow) (workspaceId : Int) (chain : ChainKind)
    (address : String) : Except String (Option String) := do
  let rows := labels.filter fun row =>
    row.workspaceId == workspaceId && row.chain == chain.asStr && row.address == address && row.active dbNow
  let best ← rows.foldlM mergeLabel none
  return best.map fun b => b.2.2

/-- A wallet without a label is watched. -/
def effectiveDisposition (dbNow : DateTime) (labels : List LabelRow) (workspaceId : Int) (chain : ChainKind)
    (address : String) : Except String Disposition := do
  match ← activeDisposition dbNow labels workspaceId chain address with
  | some value => match Disposition.parse value with
    | some d => return d
    | none => throw (unknownDisposition value)
  | none => return .watch

/-! ## The four queries -/

def Db.disposition (db : Db) (workspaceId : Int) (chain : ChainKind) (address : String) : Except String Disposition :=
  effectiveDisposition db.dbNow db.labels workspaceId chain address

/-- The trade is a purchase of the token. -/
def TradeRow.buys (row : TradeRow) (chain : ChainKind) (mint : String) : Bool :=
  row.chain == chain.asStr && row.mint == mint && row.side == "buy"

/-- The loop of `eligible_signal_buyers`. The first buyer whose policy cannot be read ends it. -/
def eligibleAmong (disposition : String → Except String Disposition) : List String → Except String (List String)
  | [] => .ok []
  | buyer :: rest => do
    let d ← disposition buyer
    let eligible ← eligibleAmong disposition rest
    return if d.allowsScoring then buyer :: eligible else eligible

def buyers (db : Db) (chain : ChainKind) (mint : String) : List String :=
  distinct (·.wallet) (db.trades.filter (TradeRow.buys · chain mint))

def eligibleSignalBuyers (db : Db) (workspaceId : Int) (chain : ChainKind) (mint : String) :
    Except String (List String) :=
  eligibleAmong (db.disposition workspaceId chain) (buyers db chain mint)

/-- The memberships of eligible buyers. The join with the trades repeats a row for
each of them, which the distinct addresses hide again. -/
def buyerMembers (db : Db) (chain : ChainKind) (mint : String) (eligible : List String) : List MemberRow :=
  db.members.filter fun m => m.chain == chain.asStr && m.revokedAt.isNone && eligible.contains m.address &&
    db.trades.any fun t => t.buys chain mint && t.wallet == m.address

/-- `SELECT DISTINCT ON (address) cluster_id`: the least cluster of each address. -/
def canonicalClusters (rows : List MemberRow) : List Int :=
  (distinct (·.address) rows).filterMap fun a => least (·.clusterId) (rows.filter fun m => m.address == a)

def clusterBuys (db : Db) (chain : ChainKind) (mint : String) (eligible : List String) : Nat :=
  countDistinct id (canonicalClusters (buyerMembers db chain mint eligible))

def meaningfulBuys (db : Db) (chain : ChainKind) (mint : String) (eligible : List String) : Nat :=
  (db.trades.filter fun t => t.buys chain mint && decide (1 ≤ t.usdValue.getD 0) && eligible.contains t.wallet).length

def bestScoreAmong (db : Db) (chain : ChainKind) (eligible : List String) : Option ScoreRow :=
  if eligible.isEmpty then none
  else latest (·.asOf) (db.scores.filter fun s => s.chain == chain.asStr && eligible.contains s.address)

/-! ## The evaluation -/

/-- `TimeDelta::num_hours`. -/
def numHours (d : Int) : Int := (numSeconds d).tdiv 3600

def walletEligibility : Option ScoreRow → WalletEligibility
  | some row => ⟨1, asU32 (max row.skillScore 0), asU32 (max row.copyabilityScore 0), row.historyCompleteness⟩
  | none => ⟨0, 0, 0, 0⟩

structure AlphaInputs where
  token : TokenGate
  market : MarketGate
  clusters : ClusterSummary
  wallets : WalletEligibility
  deriving DecidableEq, Repr

def tokenGate (row : TokenRow) (now : DateTime) : TokenGate where
  lifecycle := (LifecycleState.parse row.lifecycleState).getD .unsupported
  ageHours := row.firstSeenAt.map fun t => numHours (now - t)
  riskFlags := row.riskFlags.getD []

def marketGate (db : Db) (chain : ChainKind) (mint : String) (now : DateTime) : MarketGate :=
  let row := latest (·.observedAt) (db.snapshots.filter fun s =>
    s.chain == chain.asStr && s.mint == mint && s.observedAt ≤ now)
  ⟨row.bind (·.liquidityUsd), row.map (·.observedAt)⟩

/-- What `evaluate_token_signals_impl` hands to the gates. -/
def alphaInputs (db : Db) (workspaceId : Int) (chain : ChainKind) (mint : String) (now : DateTime) :
    Except String AlphaInputs := do
  match db.tokens.find? (fun t => t.chain == chain.asStr && t.mint == mint) with
  | none => throw "token not tracked"
  | some row =>
    let eligible ← eligibleSignalBuyers db workspaceId chain mint
    return {
      token := tokenGate row now
      market := marketGate db chain mint now
      clusters := ⟨asU32 (max (clusterBuys db chain mint eligible) 0),
        asU32 (max (meaningfulBuys db chain mint eligible) 0)⟩
      wallets := walletEligibility (bestScoreAmong db chain eligible) }

/-- `evaluate_token_signals_impl`: the rows it writes, and the claims after it. The
clock of the database reads `writeNow` when it writes. -/
def evaluateTokenSignalsImpl (db : Db) (workspaceId : Int) (chain : ChainKind) (mint : String)
    (now writeNow : DateTime) (config : SignalsConfig) (claimToken : Option String) :
    Except String (Evaluated × EvalClaims) := do
  let i ← alphaInputs db workspaceId chain mint now
  match claimToken with
  | some token =>
    evaluateTokenFenced db.claims writeNow db.signals workspaceId chain mint now config i.token i.market
      i.clusters i.wallets none token
  | none =>
    let out ← evaluateTokenOn db.signals workspaceId chain mint now config i.token i.market i.clusters i.wallets none
    return (out, db.claims)

/-! ## Who is eligible -/

/-- The policy of the workspace lets the wallet score. -/
def Db.allows (db : Db) (workspaceId : Int) (chain : ChainKind) (address : String) : Bool :=
  match db.disposition workspaceId chain address with
  | .ok d => d.allowsScoring
  | .error _ => false

/-- The policy of every buyer of the token can be read. -/
def Db.Readable (db : Db) (workspaceId : Int) (chain : ChainKind) (mint : String) : Prop :=
  ∀ buyer ∈ buyers db chain mint, ∃ d, db.disposition workspaceId chain buyer = .ok d

section
variable {db db' : Db} {workspaceId : Int} {chain : ChainKind} {mint : String} {eligible eligible' : List String}

theorem eligibleAmong_ok {disposition : String → Except String Disposition} {allows : String → Bool}
    (hallows : ∀ b d, disposition b = .ok d → allows b = d.allowsScoring) {l : List String} :
    eligibleAmong disposition l = .ok eligible → eligible = l.filter allows := by
  induction l generalizing eligible with
  | nil => intro h; exact (Except.ok.inj h).symm
  | cons b rest ih =>
    intro h
    rw [eligibleAmong] at h
    cases hd : disposition b with
    | error e => rw [hd] at h; cases h
    | ok d =>
      cases hrest : eligibleAmong disposition rest with
      | error e => rw [hd, hrest] at h; cases h
      | ok more =>
        rw [hd, hrest] at h
        rw [List.filter_cons, hallows b d hd, ← ih hrest]
        exact (Except.ok.inj h).symm

theorem eligibleAmong_readable {disposition : String → Except String Disposition} {l : List String}
    (h : ∀ b ∈ l, ∃ d, disposition b = .ok d) : ∃ eligible, eligibleAmong disposition l = .ok eligible := by
  induction l with
  | nil => exact ⟨[], rfl⟩
  | cons b rest ih =>
    obtain ⟨d, hd⟩ := h b List.mem_cons_self
    obtain ⟨more, hmore⟩ := ih fun c hc => h c (List.mem_cons_of_mem b hc)
    rw [eligibleAmong, hd, hmore]
    exact ⟨_, rfl⟩

/-- The eligible buyers are the buyers that the policy lets score. -/
theorem eligibleSignalBuyers_eq (h : eligibleSignalBuyers db workspaceId chain mint = .ok eligible) :
    eligible = (buyers db chain mint).filter (db.allows workspaceId chain) := by
  refine eligibleAmong_ok (fun b d hd => ?_) h
  rw [Db.allows, hd]

theorem mem_eligible (h : eligibleSignalBuyers db workspaceId chain mint = .ok eligible) {a : String} :
    a ∈ eligible ↔ (∃ t ∈ db.trades, t.buys chain mint = true ∧ t.wallet = a) ∧
      db.allows workspaceId chain a = true := by
  rw [eligibleSignalBuyers_eq h, List.mem_filter, buyers, mem_distinct]
  refine and_congr_left fun _ => exists_congr fun t => ?_
  rw [List.mem_filter, and_assoc]

theorem contains_eligible (h : eligibleSignalBuyers db workspaceId chain mint = .ok eligible) {a : String}
    (ha : eligible.contains a = true) : db.allows workspaceId chain a = true :=
  ((mem_eligible h).mp (List.contains_iff_mem.mp ha)).2

/-! ## What the queries depend on -/

/-- The row is of a wallet of the chain that the policy lets score. -/
def Db.permits (db : Db) (workspaceId : Int) (chain : ChainKind) (rowChain wallet : String) : Bool :=
  rowChain == chain.asStr && db.allows workspaceId chain wallet

/-- Two states agree on the token, its market, the labels and the outcome so far, and
on the rows of the wallets that the policy lets score. The order of those rows and
every row of other wallets may differ. -/
structure PolicyEqual (workspaceId : Int) (chain : ChainKind) (mint : String) (db db' : Db) : Prop where
  dbNow : db'.dbNow = db.dbNow
  labels : db'.labels = db.labels
  signals : db'.signals = db.signals
  claims : db'.claims = db.claims
  tokens : db'.tokens.find? (fun t => t.chain == chain.asStr && t.mint == mint) =
    db.tokens.find? fun t => t.chain == chain.asStr && t.mint == mint
  snapshots : db'.snapshots.filter (fun s => s.chain == chain.asStr && s.mint == mint) =
    db.snapshots.filter fun s => s.chain == chain.asStr && s.mint == mint
  trades : (db.trades.filter fun t => db.permits workspaceId chain t.chain t.wallet).Perm
    (db'.trades.filter fun t => db.permits workspaceId chain t.chain t.wallet)
  members : (db.members.filter fun m => db.permits workspaceId chain m.chain m.address).Perm
    (db'.members.filter fun m => db.permits workspaceId chain m.chain m.address)
  scores : (db.scores.filter fun s => db.permits workspaceId chain s.chain s.address).Perm
    (db'.scores.filter fun s => db.permits workspaceId chain s.chain s.address)

theorem PolicyEqual.allows (h : PolicyEqual workspaceId chain mint db db') :
    db'.allows workspaceId chain = db.allows workspaceId chain := by
  funext a
  rw [Db.allows, Db.allows, Db.disposition, Db.disposition, h.dbNow, h.labels]

theorem buys_permits {t : TradeRow} (ht : t.buys chain mint = true) (ha : db.allows workspaceId chain t.wallet = true) :
    db.permits workspaceId chain t.chain t.wallet = true := by
  simp only [TradeRow.buys, Bool.and_eq_true] at ht
  rw [Db.permits, ht.1.1, ha]
  rfl

/-- Both states have the same eligible buyers. -/
theorem PolicyEqual.mem_iff (h : PolicyEqual workspaceId chain mint db db')
    (he : eligibleSignalBuyers db workspaceId chain mint = .ok eligible)
    (he' : eligibleSignalBuyers db' workspaceId chain mint = .ok eligible') (a : String) :
    a ∈ eligible ↔ a ∈ eligible' := by
  rw [mem_eligible he, mem_eligible he', h.allows]
  refine and_congr_left fun ha => ?_
  have hmem : ∀ t : TradeRow, t.buys chain mint = true → t.wallet = a → (t ∈ db.trades ↔ t ∈ db'.trades) := by
    intro t ht hwallet
    have hpermits : db.permits workspaceId chain t.chain t.wallet = true := buys_permits ht (hwallet ▸ ha)
    have hiff := h.trades.mem_iff (a := t)
    rwa [List.mem_filter, List.mem_filter, and_iff_left hpermits, and_iff_left hpermits] at hiff
  refine ⟨fun hbuy => ?_, fun hbuy => ?_⟩
  · obtain ⟨t, ht, hb, hw⟩ := hbuy
    exact ⟨t, (hmem t hb hw).mp ht, hb, hw⟩
  · obtain ⟨t, ht, hb, hw⟩ := hbuy
    exact ⟨t, (hmem t hb hw).mpr ht, hb, hw⟩

/-- What the queries need of two states and of the wallets they are asked about. -/
structure SameAmong (chain : ChainKind) (mint : String) (db db' : Db) (eligible eligible' : List String) : Prop where
  mem : ∀ a, a ∈ eligible ↔ a ∈ eligible'
  bought : ∀ a ∈ eligible, ∃ t ∈ db.trades, t.buys chain mint = true ∧ t.wallet = a
  bought' : ∀ a ∈ eligible', ∃ t ∈ db'.trades, t.buys chain mint = true ∧ t.wallet = a
  trades : (db.trades.filter fun t => t.chain == chain.asStr && eligible.contains t.wallet).Perm
    (db'.trades.filter fun t => t.chain == chain.asStr && eligible.contains t.wallet)
  members : (db.members.filter fun m => m.chain == chain.asStr && eligible.contains m.address).Perm
    (db'.members.filter fun m => m.chain == chain.asStr && eligible.contains m.address)
  scores : (db.scores.filter fun s => s.chain == chain.asStr && eligible.contains s.address).Perm
    (db'.scores.filter fun s => s.chain == chain.asStr && eligible.contains s.address)

theorem PolicyEqual.among (h : PolicyEqual workspaceId chain mint db db')
    (he : eligibleSignalBuyers db workspaceId chain mint = .ok eligible)
    (he' : eligibleSignalBuyers db' workspaceId chain mint = .ok eligible') :
    SameAmong chain mint db db' eligible eligible' := by
  have hpermits : ∀ rowChain wallet : String, (rowChain == chain.asStr && eligible.contains wallet) = true →
      db.permits workspaceId chain rowChain wallet = true := by
    intro rowChain wallet hrow
    rw [Bool.and_eq_true] at hrow
    rw [Db.permits, hrow.1, contains_eligible he hrow.2]
    rfl
  exact {
    mem := h.mem_iff he he'
    bought := fun a ha => ((mem_eligible he).mp ha).1
    bought' := fun a ha => ((mem_eligible he').mp ha).1
    trades := filter_perm_of_imp h.trades fun t => hpermits t.chain t.wallet
    members := filter_perm_of_imp h.members fun m => hpermits m.chain m.address
    scores := filter_perm_of_imp h.scores fun s => hpermits s.chain s.address }

theorem SameAmong.contains (h : SameAmong chain mint db db' eligible eligible') :
    eligible'.contains = eligible.contains := by
  funext a
  rw [Bool.eq_iff_iff, List.contains_iff_mem, List.contains_iff_mem, h.mem]

/-- Every eligible wallet bought, so the join with the trades drops no membership. -/
theorem buyerMembers_eq (hbought : ∀ a ∈ eligible, ∃ t ∈ db.trades, t.buys chain mint = true ∧ t.wallet = a) :
    buyerMembers db chain mint eligible =
      db.members.filter fun m => m.revokedAt.isNone && (m.chain == chain.asStr && eligible.contains m.address) := by
  refine List.filter_congr fun m _ => ?_
  cases hm : eligible.contains m.address with
  | false => simp
  | true =>
    obtain ⟨t, ht, hb, hw⟩ := hbought m.address (List.contains_iff_mem.mp hm)
    have hany : (db.trades.any fun t => t.buys chain mint && t.wallet == m.address) = true :=
      List.any_eq_true.mpr ⟨t, ht, by simp [hb, hw]⟩
    rw [hany]
    simp [Bool.and_comm]

theorem canonicalClusters_perm {rows rows' : List MemberRow} (h : rows.Perm rows') :
    (canonicalClusters rows).Perm (canonicalClusters rows') := by
  have hleast : ∀ a, least (·.clusterId) (rows.filter fun m => m.address == a) =
      least (·.clusterId) (rows'.filter fun m => m.address == a) := fun a => least_perm (h.filter _)
  rw [canonicalClusters, canonicalClusters, funext hleast]
  exact (distinct_perm h).filterMap _

theorem SameAmong.clusterBuys (h : SameAmong chain mint db db' eligible eligible') :
    clusterBuys db chain mint eligible = clusterBuys db' chain mint eligible' := by
  have hmembers : (buyerMembers db chain mint eligible).Perm (buyerMembers db' chain mint eligible') := by
    rw [buyerMembers_eq h.bought, buyerMembers_eq h.bought', h.contains]
    refine filter_perm_of_imp h.members fun m hm => ?_
    rw [Bool.and_eq_true] at hm
    exact hm.2
  exact countDistinct_perm (canonicalClusters_perm hmembers)

theorem SameAmong.meaningfulBuys (h : SameAmong chain mint db db' eligible eligible') :
    meaningfulBuys db chain mint eligible = meaningfulBuys db' chain mint eligible' := by
  rw [Signals.meaningfulBuys, Signals.meaningfulBuys, h.contains]
  refine (filter_perm_of_imp h.trades fun t ht => ?_).length_eq
  simp only [TradeRow.buys, Bool.and_eq_true] at ht ⊢
  exact ⟨ht.1.1.1.1, ht.2⟩

theorem SameAmong.bestScoreAmong (h : SameAmong chain mint db db' eligible eligible')
    (htimes : ((db.scores.filter fun s => s.chain == chain.asStr && eligible.contains s.address).map (·.asOf)).Nodup) :
    bestScoreAmong db chain eligible = bestScoreAmong db' chain eligible' := by
  have hempty : eligible'.isEmpty = eligible.isEmpty := by
    rw [Bool.eq_iff_iff, List.isEmpty_iff, List.isEmpty_iff, List.eq_nil_iff_forall_not_mem,
      List.eq_nil_iff_forall_not_mem]
    exact forall_congr' fun a => not_congr (h.mem a).symm
  rw [Signals.bestScoreAmong, Signals.bestScoreAmong, hempty, h.contains, latest_perm h.scores htimes]

/-! ## The outcome -/

/-- The gates are asked the same in both states. -/
theorem alphaInputs_policy (h : PolicyEqual workspaceId chain mint db db') (hread : db.Readable workspaceId chain mint)
    (hread' : db'.Readable workspaceId chain mint)
    (htimes : ∀ eligible, eligibleSignalBuyers db workspaceId chain mint = .ok eligible →
      ((db.scores.filter fun s => s.chain == chain.asStr && eligible.contains s.address).map (·.asOf)).Nodup)
    (now : DateTime) : alphaInputs db workspaceId chain mint now = alphaInputs db' workspaceId chain mint now := by
  obtain ⟨eligible, he⟩ := eligibleAmong_readable hread
  obtain ⟨eligible', he'⟩ := eligibleAmong_readable hread'
  have hamong := h.among he he'
  have hmarket : marketGate db chain mint now = marketGate db' chain mint now := by
    have hsplit : ∀ l : List SnapshotRow,
        (l.filter fun s => s.chain == chain.asStr && s.mint == mint && decide (s.observedAt ≤ now)) =
          (l.filter fun s => s.chain == chain.asStr && s.mint == mint).filter fun s => s.observedAt ≤ now := by
      intro l
      rw [List.filter_filter]
      exact List.filter_congr fun s _ => Bool.and_comm _ _
    rw [marketGate, marketGate, hsplit, hsplit, h.snapshots]
  rw [alphaInputs, alphaInputs, h.tokens]
  cases db.tokens.find? (fun t => t.chain == chain.asStr && t.mint == mint) with
  | none => rfl
  | some row =>
    show (do let eligible ← eligibleAmong _ _; _) = (do let eligible ← eligibleAmong _ _; _)
    rw [he, he']
    show Except.ok _ = Except.ok _
    rw [hmarket, hamong.clusterBuys, hamong.meaningfulBuys, hamong.bestScoreAmong (htimes eligible he)]

/-- No more clusters are counted than there are eligible buyers. -/
theorem clusterBuys_le (he : eligibleSignalBuyers db workspaceId chain mint = .ok eligible) :
    clusterBuys db chain mint eligible ≤ countDistinct (·.wallet)
      (db.trades.filter fun t => t.buys chain mint && db.allows workspaceId chain t.wallet) := by
  have hset : ∀ m ∈ buyerMembers db chain mint eligible, m.address ∈ distinct (·.wallet)
      (db.trades.filter fun t => t.buys chain mint && db.allows workspaceId chain t.wallet) := by
    intro m hm
    simp only [buyerMembers, List.mem_filter, Bool.and_eq_true] at hm
    obtain ⟨hbuy, hallows⟩ := (mem_eligible he).mp (List.contains_iff_mem.mp hm.2.1.2)
    obtain ⟨t, ht, hb, hw⟩ := hbuy
    refine mem_distinct.mpr ⟨t, List.mem_filter.mpr ⟨ht, ?_⟩, hw⟩
    rw [hb, hw, hallows]
    rfl
  calc countDistinct id (canonicalClusters (buyerMembers db chain mint eligible))
      ≤ (canonicalClusters (buyerMembers db chain mint eligible)).length := by
        rw [countDistinct, distinct, List.map_id]
        exact (List.dedup_sublist _).length_le
    _ ≤ (distinct (·.address) (buyerMembers db chain mint eligible)).length := List.length_filterMap_le _ _
    _ ≤ _ := length_distinct_le hset

theorem alphaInputs_clusters_le {now : DateTime} {i : AlphaInputs}
    (h : alphaInputs db workspaceId chain mint now = .ok i) :
    i.clusters.eligibleClusters ≤ countDistinct (·.wallet)
      (db.trades.filter fun t => t.buys chain mint && db.allows workspaceId chain t.wallet) := by
  rw [alphaInputs] at h
  cases hrow : db.tokens.find? (fun t => t.chain == chain.asStr && t.mint == mint) with
  | none => rw [hrow] at h; cases h
  | some row =>
    rw [hrow] at h
    cases he : eligibleSignalBuyers db workspaceId chain mint with
    | error e => simp only [he] at h; cases h
    | ok eligible =>
      simp only [he] at h
      obtain rfl := Except.ok.inj h
      have hcast : asU32 (max (clusterBuys db chain mint eligible) 0) ≤ clusterBuys db chain mint eligible := by
        rw [asU32]
        omega
      exact hcast.trans (clusterBuys_le he)

end

def scoreLabel (address : String) : LabelRow := ⟨1, "solana", address, "score", true, none, none⟩

def skipLabel (address : String) : LabelRow := ⟨1, "solana", address, "skip", true, none, none⟩

def buy (wallet : String) : TradeRow := ⟨"solana", wallet, "mint", "buy", some 5⟩

/-- Two wallets of two clusters buy, and both may score. -/
def scoredDb : Db where
  dbNow := 0
  labels := [scoreLabel "ann", scoreLabel "ben", skipLabel "sam"]
  tokens := [⟨"solana", "mint", "graduated", some 0, some []⟩]
  snapshots := [⟨"solana", "mint", 0, some 50000⟩]
  trades := [buy "ann", buy "ben"]
  members := [⟨1, "solana", "ann", none⟩, ⟨2, "solana", "ben", none⟩]
  scores := [⟨"solana", "ann", 1, 80, 80, 1⟩, ⟨"solana", "ben", 2, 90, 90, 1⟩]
  signals := []
  claims := fun _ => none

/-- A third wallet that is skipped buys too, from a cluster and with a score of its own. -/
def skippedDb : Db :=
  { scoredDb with
    trades := [buy "sam", buy "ben", buy "ann"]
    members := [⟨3, "solana", "sam", none⟩, ⟨1, "solana", "ann", none⟩, ⟨2, "solana", "ben", none⟩]
    scores := [⟨"solana", "sam", 3, 0, 0, 0⟩, ⟨"solana", "ben", 2, 90, 90, 1⟩, ⟨"solana", "ann", 1, 80, 80, 1⟩] }

theorem readable_of_all {db : Db} {workspaceId : Int} {chain : ChainKind} {mint : String}
    (h : (buyers db chain mint).all fun b => (db.disposition workspaceId chain b).isOk) :
    db.Readable workspaceId chain mint := by
  intro b hb
  have hok := List.all_eq_true.mp h b hb
  cases hd : db.disposition workspaceId chain b with
  | ok d => exact ⟨d, rfl⟩
  | error e => rw [hd] at hok; cases hok

/-- The evaluation of the two buyers ends in a signal. -/
example : (evaluateTokenSignalsImpl scoredDb 1 .solana "mint" 3 3 ⟨24, 20000, 300⟩ none).toOption.map
    (fun out => (out.1.evaluation.status, out.1.signal.map (·.score))) = some ("accepted", some 61) := by
  decide +kernel

end WhaleIntelligence.Signals
