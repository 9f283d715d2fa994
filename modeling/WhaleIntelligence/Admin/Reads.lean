import WhaleIntelligence.Radar.View
import WhaleIntelligence.Recent.Store
import WhaleIntelligence.Signals.EvalClaims
import WhaleIntelligence.Signals.Outbox

/- The reads of the admin interface over the tables that workspaces own rows of, and
   the selections that workers make of them.

   A handler asks who the session is and then runs its own query; the queries are
   definitions of their own. A query with a bound number of rows breaks ties by the
   order of the table. -/
namespace WhaleIntelligence.Admin
open WhaleIntelligence Query

/-! ## Tables -/

/-- A row of `admin_sessions`. -/
structure AdminSession where
  tokenHash : String
  expiresAt : DateTime
  workspaceId : Option Int64
  deriving DecidableEq, Repr

/-- A row of `wallet_labels`, with the columns that are only listed. -/
structure WalletLabelRow extends Signals.LabelRow where
  id : Int
  kind : String
  confidence : Int
  createdAt : DateTime
  deriving DecidableEq, Repr

/-- The tables of the radar and the others that are read, with the CHECK on case ids. -/
structure Database extends Radar.RadarDb where
  sessions : List AdminSession
  labels : List WalletLabelRow
  signals : List Signals.SignalRow
  evaluations : List Signals.Claims.Commit
  recentEvents : Recent.RecentEvents
  alerts : List Signals.AlertRow
  tokens : List Signals.TokenRow
  /-- The ids of `wallet_clusters`. -/
  clusters : List Int
  /-- The times of `transfers`. -/
  transfers : List DateTime
  caseIds_pos : ∀ c ∈ cases, 0 < c.id

/-! ## Sessions -/

inductive StatusCode where
  | badRequest | unauthorized | notFound
  deriving DecidableEq, Repr

/-- What a request comes with. The hash of a token is a function of the token. -/
structure Caller where
  authConfigured : Bool
  tokenHash : String → String
  sessionToken : Option String

def validateSession (c : Caller) (db : Database) (token : String) : Bool :=
  token != "" && db.sessions.any fun s => s.tokenHash == c.tokenHash token && db.dbNow < s.expiresAt

def workspaceForSession (c : Caller) (db : Database) (token : String) : Option Int64 :=
  if token = "" then none
  else (db.sessions.find? fun s =>
    s.tokenHash == c.tokenHash token && db.dbNow < s.expiresAt && s.workspaceId.isSome).bind (·.workspaceId)

def requireAuth (c : Caller) (db : Database) : Except StatusCode Unit :=
  if c.authConfigured then
    match c.sessionToken with
    | none => .error .unauthorized
    | some token => if validateSession c db token then .ok () else .error .unauthorized
  else .ok ()

def requireWorkspace (c : Caller) (db : Database) : Except StatusCode Int64 :=
  match c.sessionToken with
  | none => .error .unauthorized
  | some token =>
    match workspaceForSession c db token with
    | some id => .ok id
    | none => .error .unauthorized

/-! ## Queries -/

def clampHours (h : Option Int) (default : Int) : Int := max 1 (min 168 (h.getD default))

def clampLimit (limit : Option Int) : Nat := (max 1 (min 500 (limit.getD 50))).toNat

/-- `now() - ($1 || ' hours')::interval`. -/
def hoursAgo (db : Database) (hours : Int) : DateTime := db.dbNow - seconds (hours * 3600)

/-- `date_trunc('hour', t)`, in UTC. -/
def dateTruncHour (t : DateTime) : DateTime := t - t % seconds 3600

/-- `GROUP BY t ORDER BY t`, with a row of counts for each hour. -/
def byHour {ρ α : Type} (time : ρ → DateTime) (counts : List ρ → α) (rows : List ρ) : List (DateTime × α) :=
  ((distinct (fun r => dateTruncHour (time r)) rows).insertionSort (· ≤ ·)).map fun t =>
    (t, counts (rows.filter fun r => dateTruncHour (time r) == t))

/-- `ORDER BY time DESC`. -/
def newestOf {ρ : Type} (time : ρ → DateTime) (rows : List ρ) : List ρ :=
  rows.insertionSort fun a b => time b ≤ time a

/-- `ORDER BY time ASC`. -/
def oldestOf {ρ : Type} (time : ρ → DateTime) (rows : List ρ) : List ρ :=
  rows.insertionSort fun a b => time a ≤ time b

structure SignalCounts where
  accepted : Nat
  rejected : Nat
  deriving DecidableEq, Repr

def signalsTimeline (db : Database) (workspaceId : Int64) (hours : Int) : List (DateTime × SignalCounts) :=
  byHour (·.row.evaluatedAt)
    (fun rows => ⟨(rows.filter fun e => e.row.status == "accepted").length,
      (rows.filter fun e => e.row.status == "rejected").length⟩)
    (db.evaluations.filter fun e => e.row.workspaceId == workspaceId.toInt && hoursAgo db hours < e.row.evaluatedAt)

structure RadarCounts where
  funded : Nat
  preparation : Nat
  deployed : Nat
  deriving DecidableEq, Repr

def stageCount (stage : RadarStage) (rows : List Radar.CaseRow) : Nat := (rows.filter fun c => c.stage == stage).length

def radarTrend (db : Database) (hours : Int) : List (DateTime × RadarCounts) :=
  byHour (·.updatedAt) (fun rows => ⟨stageCount .funded rows, stageCount .preparation rows, stageCount .deployed rows⟩)
    (db.cases.filter fun c => hoursAgo db hours < c.updatedAt)

structure Overview where
  wallets : Nat
  tokens : Nat
  clusters : Nat
  signals24h : Nat
  radarOpen : Nat
  transfers24h : Nat
  deriving DecidableEq, Repr

/-- `stage NOT IN ('dismissed', 'deployed')`. -/
def isOpen (c : Radar.CaseRow) : Bool := c.stage != .dismissed && c.stage != .deployed

def overview (db : Database) (workspaceId : Int64) : Overview where
  wallets := db.wallets.length
  tokens := db.tokens.length
  clusters := db.clusters.length
  signals24h := (db.signals.filter fun s =>
    s.workspaceId == workspaceId.toInt && hoursAgo db 24 < s.createdAt).length
  radarOpen := (db.cases.filter isOpen).length
  transfers24h := (db.transfers.filter fun t => hoursAgo db 24 < t).length

structure LabelAnswer where
  id : Int
  kind : String
  disposition : String
  manual : Bool
  confidence : Int
  active : Bool
  deriving DecidableEq, Repr

def labelsOf (db : Database) (workspaceId : Int64) (chain : ChainKind) (address : String) : List LabelAnswer :=
  (newestOf (·.createdAt) (db.labels.filter fun l =>
    l.workspaceId == workspaceId.toInt && l.chain == chain.asStr && l.address == address)).map fun l =>
      ⟨l.id, l.kind, l.disposition, l.manual, l.confidence, l.active db.dbNow⟩

structure CaseSummary where
  id : Int
  chain : String
  recipient : String
  stage : RadarStage
  confidence : Int
  firstFundingNative : Rat
  updatedAt : DateTime
  deriving DecidableEq, Repr

def caseList (db : Database) (limit : Nat) : List CaseSummary :=
  ((newestOf (·.updatedAt) db.cases).take limit).map fun c =>
    ⟨c.id, c.chain, c.recipient, c.stage, c.confidence, c.firstFundingNative, c.updatedAt⟩

structure CaseDetail where
  id : Int
  chain : String
  recipient : String
  stage : RadarStage
  confidence : Int
  evidence : Option Radar.FirstFunding
  deriving DecidableEq, Repr

def caseOf (db : Database) (id : Int) : Option CaseDetail :=
  (db.cases.find? fun c => c.id == id).map fun c => ⟨c.id, c.chain, c.recipient, c.stage, c.confidence, c.evidence⟩

structure SignalSummary where
  id : Int
  chain : String
  mint : String
  signalKind : String
  score : Int
  createdAt : DateTime
  deriving DecidableEq, Repr

def SignalSummary.of (s : Signals.SignalRow) : SignalSummary :=
  ⟨s.id, s.chain, s.mint, s.signalKind, s.score, s.createdAt⟩

def signalList (db : Database) (workspaceId : Int64) (limit : Nat) : List SignalSummary :=
  ((newestOf (·.createdAt) (db.signals.filter fun s => s.workspaceId == workspaceId.toInt)).take limit).map
    SignalSummary.of

structure Rejection where
  chain : String
  mint : String
  signalKind : String
  rejectionCode : Option String
  evaluatedAt : DateTime
  deriving DecidableEq, Repr

def rejectionList (db : Database) (workspaceId : Int64) (limit : Nat) : List Rejection :=
  ((newestOf (·.row.evaluatedAt) (db.evaluations.filter fun e =>
    e.row.workspaceId == workspaceId.toInt && e.row.status == "rejected")).take limit).map fun e =>
      ⟨e.row.chain, e.row.mint, e.row.signalKind, e.row.rejectionCode, e.row.evaluatedAt⟩

/-- The hours of a window, `none` for no bound. -/
def windowHours : String → Option Int
  | "1h" => some 1
  | "24h" => some 24
  | "7d" => some 168
  | "30d" => some 720
  | _ => none

/-- The rows of a token. -/
def recentRows (db : Database) (workspaceId : Int64) (tokenIdentity : String) : List (Nat × Recent.RecentEventRow) :=
  db.recentEvents.rows.filter fun r => r.2.workspaceId == workspaceId && r.2.tokenIdentity == tokenIdentity

def isCoverage (r : Nat × Recent.RecentEventRow) : Bool := r.2.eventType == "coverage_disclosure"

/-- The id of the coverage disclosure in force. -/
def currentCoverage (rows : List (Nat × Recent.RecentEventRow)) : Option Nat :=
  (SerialTable.newestFirst Recent.RecentEventRow.occurredAt (rows.filter isCoverage)).head?.map (·.1)

/-- `fetch_recent_timeline`: within a bounded window the coverage in force, and the events
that are no disclosure. -/
def fetchRecentTimeline (db : Database) (workspaceId : Int64) (tokenIdentity window : String) :
    List Recent.RecentEvent :=
  let rows := recentRows db workspaceId tokenIdentity
  let current := currentCoverage rows
  let shown := match windowHours window with
    | some hours => rows.filter fun r =>
        some r.1 == current || (hoursAgo db hours ≤ r.2.occurredAt && !isCoverage r)
    | none => rows
  (oldestOf (·.2.occurredAt) shown).map fun r => r.2.intoEvent (some r.1 == current)

/-! ## Endpoints -/

/-- A request to one of the read endpoints. -/
inductive Request where
  | metricsSignalsTimeline (hours : Option Int)
  | metricsRadarTrend (hours : Option Int)
  | metricsOverview
  | listLabels (chain address : String)
  | radarCases (limit : Option Int)
  | radarCase (id : Int)
  | listSignals (limit : Option Int)
  | signalRejections (limit : Option Int)
  | tokenRecent (chain mint : String) (window : Option String)
  | tokenRelations (chain mint : String)
  deriving DecidableEq, Repr

inductive Body where
  | signalsTimeline (rows : List (DateTime × SignalCounts))
  | radarTrend (rows : List (DateTime × RadarCounts))
  | overview (answer : Overview)
  | labels (rows : List LabelAnswer)
  | cases (rows : List CaseSummary)
  | case (answer : CaseDetail)
  | signals (rows : List SignalSummary)
  | rejections (rows : List Rejection)
  | recent (events : List Recent.RecentEvent)
  | relations (relations : List Recent.CandidateRelation)
  deriving DecidableEq, Repr

/-- The canonical key of a token, from the chain as it was spelled. -/
def tokenIdentity (chain mint : String) : Except StatusCode String :=
  match ChainKind.parse chain with
  | some chain => .ok (chain.asStr ++ ":" ++ mint)
  | none => .error .badRequest

def metricsSignalsTimeline (c : Caller) (db : Database) (hours : Option Int) : Except StatusCode Body := do
  let workspaceId ← requireWorkspace c db
  .ok (.signalsTimeline (signalsTimeline db workspaceId (clampHours hours 24)))

def metricsRadarTrend (c : Caller) (db : Database) (hours : Option Int) : Except StatusCode Body := do
  requireAuth c db
  .ok (.radarTrend (radarTrend db (clampHours hours 48)))

def metricsOverview (c : Caller) (db : Database) : Except StatusCode Body := do
  let workspaceId ← requireWorkspace c db
  .ok (.overview (overview db workspaceId))

def listLabels (c : Caller) (db : Database) (chain address : String) : Except StatusCode Body := do
  requireAuth c db
  let workspaceId ← requireWorkspace c db
  match ChainKind.parse chain with
  | some chain => .ok (.labels (labelsOf db workspaceId chain address))
  | none => .error .badRequest

def radarCases (c : Caller) (db : Database) (limit : Option Int) : Except StatusCode Body := do
  requireAuth c db
  .ok (.cases (caseList db (clampLimit limit)))

def radarCase (c : Caller) (db : Database) (id : Int) : Except StatusCode Body := do
  requireAuth c db
  match caseOf db id with
  | some answer => .ok (.case answer)
  | none => .error .notFound

def listSignals (c : Caller) (db : Database) (limit : Option Int) : Except StatusCode Body := do
  let workspaceId ← requireWorkspace c db
  .ok (.signals (signalList db workspaceId (clampLimit limit)))

def signalRejections (c : Caller) (db : Database) (limit : Option Int) : Except StatusCode Body := do
  let workspaceId ← requireWorkspace c db
  .ok (.rejections (rejectionList db workspaceId (clampLimit limit)))

def tokenRecent (c : Caller) (db : Database) (chain mint : String) (window : Option String) :
    Except StatusCode Body := do
  requireAuth c db
  let workspaceId ← requireWorkspace c db
  let identity ← tokenIdentity chain mint
  let window := window.getD "24h"
  if ["1h", "24h", "7d", "30d", "all"].contains window then
    .ok (.recent (fetchRecentTimeline db workspaceId identity window))
  else .error .badRequest

def tokenRelations (c : Caller) (db : Database) (chain mint : String) : Except StatusCode Body := do
  requireAuth c db
  let workspaceId ← requireWorkspace c db
  let identity ← tokenIdentity chain mint
  .ok (.relations (Recent.fetchRelations db.recentEvents workspaceId identity))

def handle (c : Caller) (db : Database) : Request → Except StatusCode Body
  | .metricsSignalsTimeline hours => metricsSignalsTimeline c db hours
  | .metricsRadarTrend hours => metricsRadarTrend c db hours
  | .metricsOverview => metricsOverview c db
  | .listLabels chain address => listLabels c db chain address
  | .radarCases limit => radarCases c db limit
  | .radarCase id => radarCase c db id
  | .listSignals limit => listSignals c db limit
  | .signalRejections limit => signalRejections c db limit
  | .tokenRecent chain mint window => tokenRecent c db chain mint window
  | .tokenRelations chain mint => tokenRelations c db chain mint

/-! ## Selections of the workers -/

/-- The open cases that `evaluate_radar_cases` goes through. -/
def openRadarCases (db : Database) (workspaceId : Int64) : List (Int × String × String) :=
  ((oldestOf (·.updatedAt) (db.cases.filter fun c => isOpen c && c.workspaceId == workspaceId.toInt)).take 100).map
    fun c => (c.id, c.chain, c.recipient)

/-- The alert keeps the signal from being sent to the destination now. -/
def holdsBack (db : Database) (s : Signals.SignalRow) (destination : String) (a : Signals.AlertRow) : Bool :=
  a.signalId == some s.id && a.destination == destination &&
    (a.state == .sent || a.state == .dead ||
      (a.state == .pending && a.nextAttemptAt.any fun t => db.dbNow < t) ||
      (a.state == .pending && a.claimExpiresAt.any fun t => db.dbNow < t))

def pendingSignalAlerts (db : Database) (workspaceId : Int64) (destination : String) : List SignalSummary :=
  ((oldestOf (·.createdAt) (db.signals.filter fun s => s.workspaceId == workspaceId.toInt && s.status == "active" &&
    !db.alerts.any (holdsBack db s destination))).take 20).map SignalSummary.of

/-- The tokens that `evaluate_due_signals` goes through. -/
def dueSignals (db : Database) (workspaceId : Int64) (config : Signals.SignalsConfig) : List (String × String) :=
  Signals.Claims.dueTokens db.dbNow workspaceId.toInt config db.tokens db.evaluations

inductive Selection where
  | evaluateRadarCases
  | pendingSignalAlerts (destination : String)
  | evaluateDueSignals (config : Signals.SignalsConfig)
  deriving DecidableEq, Repr

inductive Selected where
  | cases (rows : List (Int × String × String))
  | signals (rows : List SignalSummary)
  | tokens (rows : List (String × String))
  deriving DecidableEq, Repr

def select (db : Database) (workspaceId : Int64) : Selection → Selected
  | .evaluateRadarCases => .cases (openRadarCases db workspaceId)
  | .pendingSignalAlerts destination => .signals (pendingSignalAlerts db workspaceId destination)
  | .evaluateDueSignals config => .tokens (dueSignals db workspaceId config)

end WhaleIntelligence.Admin
