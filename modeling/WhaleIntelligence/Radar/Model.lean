import Mathlib.Algebra.Order.Ring.Rat
import WhaleIntelligence.Lib.Query
import WhaleIntelligence.Models

/- The funding radar: `ingest_funding_event` and `evaluate_radar_case`.

   A large transfer to a fresh wallet opens a case, and later evidence is recorded
   with the case. An evaluation reads the case, then its evidence, and writes a new
   stage; what it writes is its verdict. The column `stage` is held decoded, since its
   CHECK admits the four stages only, and the evidence of an event by the two fields
   that are read or compared. An amount that its column cannot take fails the statement,
   and the end of a window that is out of range panics. -/
namespace WhaleIntelligence.Radar
open WhaleIntelligence Query

/-! ## Inputs -/

structure FundingRadarConfig where
  largeFundingMinSol : Nat
  largeFundingMinUsd : Nat
  percentileFloorSol : Nat
  recipientMaxAgeDays : Nat
  preparationWindowDays : Nat
  fanoutThreshold : Nat
  preparationEvidenceRequired : Nat
  preparationAlertConfidence : Nat
  deriving DecidableEq, Repr

/-- `FundingRadarConfig::default`. -/
def defaultConfig : FundingRadarConfig where
  largeFundingMinSol := 100
  largeFundingMinUsd := 10000
  percentileFloorSol := 10
  recipientMaxAgeDays := 7
  preparationWindowDays := 7
  fanoutThreshold := 3
  preparationEvidenceRequired := 2
  preparationAlertConfidence := 70

structure FundingEvent where
  chain : ChainKind
  signature : String
  slot : Option Nat
  observedAt : DateTime
  commitment : Commitment
  fromAddress : String
  toAddress : String
  assetKind : AssetKind
  mint : String
  rawAmount : String
  nativeAmount : Rat
  amountUsd : Option Rat
  nativeUsdPrice : Option Rat
  recipientAgeSeconds : Option Int
  sourceKind : Option WalletLabelKind
  deriving DecidableEq, Repr

def FundingEvent.sourceIsInfrastructure (event : FundingEvent) : Bool :=
  match event.sourceKind with
  | some .exchange | some .bridge | some .kuiperExchange | some .mevBot | some .dexBot => true
  | _ => false

/-! ## Rows -/

/-- A row of `funding_observations`. -/
structure ObservationRow where
  chain : String
  signature : String
  slot : Option Int
  observedAt : DateTime
  fromAddress : String
  toAddress : String
  assetKind : String
  mint : String
  rawAmount : String
  amountUsd : Option Rat
  nativeUsdPrice : Option Rat
  commitment : String
  recipientAgeSeconds : Option Int
  sourceDisposition : String
  deriving DecidableEq, Repr

/-- The unique key of `funding_observations`. -/
def ObservationRow.key (row : ObservationRow) : String × String × String × String × String × String :=
  (row.chain, row.signature, row.fromAddress, row.toAddress, row.assetKind, row.mint)

/-- A row of `wallets`. -/
structure WalletRow where
  chain : String
  address : String
  firstSeen : DateTime
  lastSeen : DateTime
  source : String
  deriving DecidableEq, Repr

/-- The `evidence` of a case: the funding that opened it. -/
structure FirstFunding where
  signature : String
  amountUsd : Option Rat
  nativeAmount : Rat
  infrastructureSource : Bool
  deriving DecidableEq, Repr

/-- A row of `funding_radar_cases`. -/
structure CaseRow where
  id : Int
  workspaceId : Int
  chain : String
  recipient : String
  firstFundedAt : DateTime
  firstFundingUsd : Option Rat
  firstFundingNative : Rat
  sourceAddress : String
  sourceKind : Option String
  fanoutCount : Int
  deployWindowEndsAt : DateTime
  stage : RadarStage
  confidence : Int
  evidence : Option FirstFunding
  updatedAt : DateTime
  dismissedReason : Option String
  deriving DecidableEq, Repr

/-- The unique key of `funding_radar_cases`. -/
def CaseRow.key (row : CaseRow) : Int × String × String := (row.workspaceId, row.chain, row.recipient)

/-- The evidence of an event: the transaction it names, and whether it says that the
source is infrastructure. -/
structure CaseEvidence where
  signature : Option String
  infrastructure : Option Bool
  deriving DecidableEq, Repr

/-- A row of `funding_radar_events`. -/
structure CaseEvent where
  caseId : Int
  eventKind : String
  observedAt : DateTime
  evidence : CaseEvidence
  deriving DecidableEq, Repr

/-- The tables of the radar, with the keys that the schema keeps unique and the case
of every event, and the clock of the database. -/
structure RadarDb where
  dbNow : DateTime
  observations : List ObservationRow
  wallets : List WalletRow
  cases : List CaseRow
  events : List CaseEvent
  nextCaseId : Int
  keys_nodup : (cases.map CaseRow.key).Nodup
  ids_nodup : (cases.map CaseRow.id).Nodup
  ids_lt : ∀ c ∈ cases, c.id < nextCaseId
  events_case : ∀ e ∈ events, ∃ c ∈ cases, c.id = e.caseId

/-! ## Statements -/

def FundingEvent.observation (event : FundingEvent) : ObservationRow where
  chain := event.chain.asStr
  signature := event.signature
  slot := event.slot.map fun n => (n : Int).bmod 18446744073709551616
  observedAt := event.observedAt
  fromAddress := event.fromAddress
  toAddress := event.toAddress
  assetKind := event.assetKind.asStr
  mint := event.mint
  rawAmount := event.rawAmount
  amountUsd := event.amountUsd
  nativeUsdPrice := event.nativeUsdPrice
  commitment := event.commitment.asStr
  recipientAgeSeconds := event.recipientAgeSeconds
  sourceDisposition := (event.sourceKind.map (·.asStr)).getD "unknown"

/-- `store_funding_observation`: an observation that is there already is kept. -/
def storeFundingObservation (db : RadarDb) (event : FundingEvent) : RadarDb × Bool :=
  if db.observations.any fun o => o.key == event.observation.key then (db, false)
  else ({ db with observations := db.observations ++ [event.observation] }, true)

def WalletRow.isOf (w : WalletRow) (chain address : String) : Bool := w.chain == chain && w.address == address

/-- `upsert_wallet`: a wallet keeps the time it was first seen. -/
def upsertWallet (db : RadarDb) (chain address : String) (seenAt : DateTime) (source : String) : RadarDb :=
  if db.wallets.any (WalletRow.isOf · chain address) then
    { db with wallets := db.wallets.map fun w =>
        if w.isOf chain address then { w with lastSeen := max w.lastSeen seenAt, source := source } else w }
  else { db with wallets := db.wallets ++ [⟨chain, address, seenAt, seenAt, source⟩] }

/-- A change of a case that keeps its keys. -/
structure CaseChange where
  apply : CaseRow → CaseRow
  key_apply : ∀ c, (apply c).key = c.key
  id_apply : ∀ c, (apply c).id = c.id

/-- The change of the case under the id. -/
def CaseChange.at (change : CaseChange) (id : Int) (c : CaseRow) : CaseRow := if c.id = id then change.apply c else c

theorem CaseChange.key_at (change : CaseChange) (id : Int) (c : CaseRow) : (change.at id c).key = c.key := by
  rw [CaseChange.at]
  split
  · exact change.key_apply c
  · rfl

theorem CaseChange.id_at (change : CaseChange) (id : Int) (c : CaseRow) : (change.at id c).id = c.id := by
  rw [CaseChange.at]
  split
  · exact change.id_apply c
  · rfl

/-- `UPDATE funding_radar_cases … WHERE id = …`. -/
def RadarDb.updateCase (db : RadarDb) (id : Int) (change : CaseChange) : RadarDb :=
  { db with
    cases := db.cases.map (change.at id)
    keys_nodup := by
      rw [List.map_map, show CaseRow.key ∘ change.at id = CaseRow.key from funext (change.key_at id)]
      exact db.keys_nodup
    ids_nodup := by
      rw [List.map_map, show CaseRow.id ∘ change.at id = CaseRow.id from funext (change.id_at id)]
      exact db.ids_nodup
    ids_lt := by
      intro c hc
      obtain ⟨c₀, hc₀, rfl⟩ := List.mem_map.mp hc
      rw [change.id_at]
      exact db.ids_lt c₀ hc₀
    events_case := by
      intro e he
      obtain ⟨c, hc, hce⟩ := db.events_case e he
      exact ⟨_, List.mem_map_of_mem hc, by rw [change.id_at, hce]⟩ }

def stageChange (stage : RadarStage) (confidence : Int) (dismissedReason : Option String) (dbNow : DateTime) :
    CaseChange where
  apply c := { c with
    stage := stage
    confidence := confidence
    updatedAt := dbNow
    dismissedReason := dismissedReason.or c.dismissedReason }
  key_apply _ := by rw [CaseRow.key, CaseRow.key]
  id_apply _ := rfl

def updateStage (db : RadarDb) (id : Int) (stage : RadarStage) (confidence : Nat) (dismissedReason : Option String) :
    RadarDb := db.updateCase id (stageChange stage (asI32 confidence) dismissedReason db.dbNow)

def dismissal (reason : String) (dbNow : DateTime) : CaseChange where
  apply c := { c with
    stage := .dismissed
    dismissedReason := some reason
    updatedAt := dbNow }
  key_apply _ := by rw [CaseRow.key, CaseRow.key]
  id_apply _ := rfl

def dismissCase (db : RadarDb) (id : Int) (reason : String) : RadarDb := db.updateCase id (dismissal reason db.dbNow)

def fanoutChange (fanoutCount : Int) (dbNow : DateTime) : CaseChange where
  apply c := { c with
    fanoutCount := fanoutCount
    updatedAt := dbNow }
  key_apply _ := by rw [CaseRow.key, CaseRow.key]
  id_apply _ := rfl

def updateCaseFanout (db : RadarDb) (id : Int) (fanout : Nat) : RadarDb :=
  db.updateCase id (fanoutChange (asI32 fanout) db.dbNow)

/-- `record_case_event`. There is no event without its case. -/
def recordCaseEvent (db : RadarDb) (caseId : Int) (eventKind : String) (observedAt : DateTime)
    (evidence : CaseEvidence) : Except String RadarDb :=
  if h : ∃ c ∈ db.cases, c.id = caseId then
    .ok { db with
      events := db.events ++ [⟨caseId, eventKind, observedAt, evidence⟩]
      events_case := by
        intro e he
        rcases List.mem_append.mp he with he | he
        · exact db.events_case e he
        · obtain rfl := List.mem_singleton.mp he
          exact h }
  else .error "insert or update on table \"funding_radar_events\" violates foreign key constraint"

/-- `record_case_evidence`. -/
def recordCaseEvidence (db : RadarDb) (caseId : Int) (eventKind : String) (observedAt : DateTime)
    (evidence : CaseEvidence) : Except String RadarDb := recordCaseEvent db caseId eventKind observedAt evidence

def linkDeployment (db : RadarDb) (caseId : Int) (signature : String) (observedAt : DateTime) :
    Except String RadarDb := recordCaseEvent db caseId "deployment" observedAt ⟨some signature, none⟩

/-- The insertion of a case, which fails when the recipient has one. -/
def insertCase (db : RadarDb) (row : CaseRow) : Except String RadarDb :=
  if h : row.key ∈ db.cases.map CaseRow.key then
    .error "duplicate key value violates unique constraint \"funding_radar_cases_tenant_uidx\""
  else .ok { db with
    cases := db.cases ++ [{ row with id := db.nextCaseId }]
    nextCaseId := db.nextCaseId + 1
    keys_nodup := by
      rw [List.map_append, List.nodup_append]
      refine ⟨db.keys_nodup, List.nodup_singleton _, fun k hk k' hk' heq => ?_⟩
      rw [List.mem_singleton.mp hk'] at heq
      exact h (heq ▸ hk)
    ids_nodup := by
      rw [List.map_append, List.nodup_append]
      refine ⟨db.ids_nodup, List.nodup_singleton _, fun i hi i' hi' heq => ?_⟩
      obtain ⟨c, hc, rfl⟩ := List.mem_map.mp hi
      rw [List.mem_singleton.mp hi'] at heq
      exact absurd (db.ids_lt c hc) (by rw [heq]; exact lt_irrefl _)
    ids_lt := by
      intro c hc
      rcases List.mem_append.mp hc with hc | hc
      · exact Int.lt_add_one_of_le (le_of_lt (db.ids_lt c hc))
      · obtain rfl := List.mem_singleton.mp hc
        exact Int.lt_succ _
    events_case := by
      intro e he
      obtain ⟨c, hc, hce⟩ := db.events_case e he
      exact ⟨c, List.mem_append_left _ hc, hce⟩ }

/-! ## Reads -/

structure FundingRadarCase where
  id : Int
  chain : ChainKind
  recipient : String
  firstFundedAt : DateTime
  firstFundingUsd : Option Rat
  firstFundingNative : Rat
  sourceAddress : String
  sourceKind : Option WalletLabelKind
  fanoutCount : Nat
  deployWindowEndsAt : DateTime
  stage : RadarStage
  confidence : Nat
  updatedAt : DateTime
  deriving DecidableEq, Repr

def CaseRow.read (row : CaseRow) (chain : ChainKind) : FundingRadarCase where
  id := row.id
  chain := (ChainKind.parse row.chain).getD chain
  recipient := row.recipient
  firstFundedAt := row.firstFundedAt
  firstFundingUsd := row.firstFundingUsd
  firstFundingNative := row.firstFundingNative
  sourceAddress := row.sourceAddress
  sourceKind := row.sourceKind.bind WalletLabelKind.parse
  fanoutCount := asU32 (max row.fanoutCount 0)
  deployWindowEndsAt := row.deployWindowEndsAt
  stage := row.stage
  confidence := asU32 (max row.confidence 0)
  updatedAt := row.updatedAt

def caseRow (db : RadarDb) (workspaceId : Int) (chain : ChainKind) (recipient : String) : Option CaseRow :=
  db.cases.find? fun c => c.key == (workspaceId, chain.asStr, recipient)

def fetchCase (db : RadarDb) (workspaceId : Int) (chain : ChainKind) (recipient : String) : Option FundingRadarCase :=
  (caseRow db workspaceId chain recipient).map (CaseRow.read · chain)

def days (n : Nat) : Int := seconds (n * 86400)

/-- `count_fresh_children`: the wallets that the recipient funded while they were young. -/
def countFreshChildren (db : RadarDb) (chain : ChainKind) (recipient : String) (config : FundingRadarConfig) : Nat :=
  asU32 (countDistinct (·.toAddress) (db.observations.filter fun o =>
    o.chain == chain.asStr && o.fromAddress == recipient && db.wallets.any fun w =>
      w.isOf o.chain o.toAddress && o.observedAt - w.firstSeen ≤ days config.recipientMaxAgeDays))

def countCaseEvents (db : RadarDb) (caseId : Int) : Nat :=
  asU32 (db.events.filter fun e => e.caseId == caseId).length

/-! ## Ingestion -/

def qualifiesAsLargeFunding (event : FundingEvent) (config : FundingRadarConfig) (percentileThresholdSol : Option Rat) :
    Bool :=
  let usdOk := event.amountUsd.any fun usd => (config.largeFundingMinUsd : Rat) ≤ usd
  match event.assetKind with
  | .native =>
    let absoluteOk := decide ((config.largeFundingMinSol : Rat) ≤ event.nativeAmount) && usdOk
    let percentileOk := percentileThresholdSol.any fun threshold =>
      decide (threshold ≤ event.nativeAmount) && decide ((config.percentileFloorSol : Rat) ≤ event.nativeAmount)
    absoluteOk || percentileOk
  | .splToken | .erc20 => usdOk

def recipientIsFresh (event : FundingEvent) (config : FundingRadarConfig) : Bool :=
  event.recipientAgeSeconds.any fun age : Int =>
    decide (0 ≤ age) && decide (age ≤ (config.recipientMaxAgeDays : Int) * 86400)

/-- The event passes the three guards before a case is touched. -/
def opensCases (event : FundingEvent) (config : FundingRadarConfig) (percentileThresholdSol : Option Rat) : Bool :=
  decide (Commitment.confirmed.rank ≤ event.commitment.rank) && recipientIsFresh event config &&
    qualifiesAsLargeFunding event config percentileThresholdSol

def FundingEvent.evidence (event : FundingEvent) : CaseEvidence :=
  ⟨some event.signature, some event.sourceIsInfrastructure⟩

/-- The case that a first funding opens. -/
def FundingEvent.newCase (event : FundingEvent) (workspaceId : Int) (config : FundingRadarConfig) (dbNow : DateTime) :
    CaseRow where
  id := 0
  workspaceId := workspaceId
  chain := event.chain.asStr
  recipient := event.toAddress
  firstFundedAt := event.observedAt
  firstFundingUsd := event.amountUsd
  firstFundingNative := event.nativeAmount
  sourceAddress := event.fromAddress
  sourceKind := event.sourceKind.map (·.asStr)
  fanoutCount := 0
  deployWindowEndsAt := event.observedAt + days config.preparationWindowDays
  stage := .funded
  confidence := if event.sourceIsInfrastructure then 40 else 55
  evidence := some ⟨event.signature, event.amountUsd, event.nativeAmount, event.sourceIsInfrastructure⟩
  updatedAt := dbNow
  dismissedReason := none

/-- The evidence of another funding of a case. -/
def additionalFunding (db : RadarDb) (workspaceId : Int) (event : FundingEvent)
    (config : FundingRadarConfig) (id : Int) :
    RadarDb × Except String (Option FundingRadarCase) :=
  match recordCaseEvent db id "additional_funding" event.observedAt event.evidence with
  | .error e => (db, .error e)
  | .ok db =>
    let db := updateCaseFanout db id (countFreshChildren db event.chain event.toAddress config)
    (db, .ok (fetchCase db workspaceId event.chain event.toAddress))

def openCase (db : RadarDb) (workspaceId : Int) (event : FundingEvent) (config : FundingRadarConfig) :
    RadarDb × Except String (Option FundingRadarCase) :=
  match insertCase db (event.newCase workspaceId config db.dbNow) with
  | .error e => (db, .error e)
  | .ok inserted =>
    match recordCaseEvent inserted db.nextCaseId "first_funding" event.observedAt event.evidence with
    | .error e => (inserted, .error e)
    | .ok db => (db, .ok (fetchCase db workspaceId event.chain event.toAddress))

/-! ## Columns and windows -/

/-- `DateTime::<Utc>::MAX_UTC`: the last nanosecond of the year 262142. -/
def maxUtc : DateTime := seconds 8210266876799 + 999999999

/-- A column `numeric(precision, scale)` takes the value: rounded to the scale, half away
from zero, it has no more digits than the precision. -/
def fitsNumeric (precision scale : Nat) (value : Rat) : Bool :=
  |value| + 1 / (2 * 10 ^ scale) < (10 : Rat) ^ (precision - scale)

/-- The columns of `funding_observations` take the amounts of the event. -/
def FundingEvent.observable (event : FundingEvent) : Bool :=
  event.amountUsd.all (fitsNumeric 30 4) && event.nativeUsdPrice.all (fitsNumeric 20 8)

def FundingEvent.windowEnds (event : FundingEvent) (config : FundingRadarConfig) : DateTime :=
  event.observedAt + days config.preparationWindowDays

def numericOverflow : String := "numeric field overflow"

/-! ## The ingestion of an event -/

/-- An answer that is no panic. -/
def returned {α : Type} (result : RadarDb × Except String α) : RadarDb × Except (Abort String) α :=
  (result.1, result.2.mapError .error)

/-- The branch that opens a case, whose columns must take the amount. -/
def openFundedCase (db : RadarDb) (workspaceId : Int) (event : FundingEvent) (config : FundingRadarConfig) :
    RadarDb × Except (Abort String) (Option FundingRadarCase) :=
  if fitsNumeric 30 9 event.nativeAmount then returned (openCase db workspaceId event config)
  else (db, .error (.error numericOverflow))

/-- What a large funding of a fresh wallet does: the recipient's case gets more evidence,
unless it is dismissed; then, or without one, a new case is opened. -/
def fundCase (db : RadarDb) (workspaceId : Int) (event : FundingEvent) (config : FundingRadarConfig) :
    RadarDb × Except (Abort String) (Option FundingRadarCase) :=
  match fetchCase db workspaceId event.chain event.toAddress with
  | some case =>
    if case.stage ≠ .dismissed then returned (additionalFunding db workspaceId event config case.id)
    else openFundedCase db workspaceId event config
  | none => openFundedCase db workspaceId event config

/-- `ingest_funding_event`. The end of the window is taken between the read of the case
and the branch on it, and panics where it is out of range. -/
def ingestFundingEvent (db : RadarDb) (workspaceId : Int) (event : FundingEvent) (config : FundingRadarConfig)
    (percentileThresholdSol : Option Rat) : RadarDb × Except (Abort String) (Option FundingRadarCase) :=
  if event.observable then
    let db := (storeFundingObservation db event).1
    if opensCases event config percentileThresholdSol then
      let db := upsertWallet db event.chain.asStr event.toAddress event.observedAt "funding_radar"
      let db := upsertWallet db event.chain.asStr event.fromAddress event.observedAt "funding_radar"
      if event.windowEnds config ≤ maxUtc then fundCase db workspaceId event config
      else (db, .error .panic)
    else (db, .ok (fetchCase db workspaceId event.chain event.toAddress))
  else (db, .error (.error numericOverflow))

/-! ## Evaluation -/

inductive RadarAlertKind where
  | fundingWatch | preparationAlert
  deriving DecidableEq, Repr

structure RadarAlert where
  kind : RadarAlertKind
  caseId : Int
  chain : ChainKind
  recipient : String
  confidence : Nat
  message : String
  evidenceKinds : List String
  deriving DecidableEq, Repr

def RadarAlert.preparation (case : FundingRadarCase) (evidenceKinds : List String) : RadarAlert where
  kind := .preparationAlert
  caseId := case.id
  chain := case.chain
  recipient := case.recipient
  confidence := case.confidence
  message := "preparation_alert: " ++ shortAddr case.recipient ++ " shows possible project preparation (confidence " ++
    toString case.confidence ++ ")"
  evidenceKinds := evidenceKinds

structure FundingRadarDecision where
  caseId : Int
  chain : ChainKind
  recipient : String
  stage : RadarStage
  previousStage : Option RadarStage
  confidence : Nat
  alert : Option RadarAlert
  reason : String
  evidenceCount : Nat
  deriving DecidableEq, Repr

/-- The evidence that an evaluation at `now` reads. -/
def evidenceRows (events : List CaseEvent) (caseId : Int) (now : DateTime) : List CaseEvent :=
  events.filter fun e => e.caseId == caseId && e.observedAt ≤ now

def distinctKinds (rows : List CaseEvent) : List String := distinct (·.eventKind) rows

def nonInfrastructure (rows : List CaseEvent) : Bool := rows.any fun e => !e.evidence.infrastructure.getD false

/-- `preparation_confidence`. -/
def preparationConfidence (fanoutCount : Nat) (config : FundingRadarConfig) (kinds : List String) : Nat :=
  let has (kind : String) : Bool := kinds.contains kind
  min (55 + (if has "fanout" then 15 else 0) + (if has "token_creation" || has "account_creation" then 10 else 0) +
    (if has "launchpad_interaction" || has "dex_interaction" then 10 else 0) +
    (if has "telegram_mention" || has "gmgn_mention" then 5 else 0) +
    (if config.fanoutThreshold ≤ fanoutCount then 5 else 0)) 95

/-- How an evaluation ends. -/
inductive Verdict where
  | terminal
  | dismiss
  | deploy (kinds : List String)
  | promote (kinds : List String) (confidence : Nat)
  | wait (kinds : List String)
  deriving DecidableEq, Repr

/-- What the case alone settles, before any evidence is read. -/
def FundingRadarCase.settled (case : FundingRadarCase) (now : DateTime) : Option Verdict :=
  if case.stage = .dismissed ∨ case.stage = .deployed then some .terminal
  else if case.deployWindowEndsAt < now ∧ case.stage = .funded then some .dismiss
  else none

/-- What the evidence settles. -/
def FundingRadarCase.weigh (case : FundingRadarCase) (config : FundingRadarConfig) (rows : List CaseEvent) : Verdict :=
  let kinds := distinctKinds rows
  if kinds.contains "deployment" then .deploy kinds
  else if config.preparationEvidenceRequired ≤ kinds.length ∧ nonInfrastructure rows = true ∧ case.stage = .funded then
    .promote kinds (preparationConfidence case.fanoutCount config kinds)
  else .wait kinds

def FundingRadarCase.verdict (case : FundingRadarCase) (events : List CaseEvent) (now : DateTime)
    (config : FundingRadarConfig) : Verdict :=
  (case.settled now).getD (case.weigh config (evidenceRows events case.id now))

def expiredReason : String := "expired window without preparation evidence"

/-- What a verdict writes. -/
def Verdict.write (v : Verdict) (db : RadarDb) (id : Int) : RadarDb :=
  match v with
  | .dismiss => dismissCase db id expiredReason
  | .deploy _ => updateStage db id .deployed 85 none
  | .promote _ confidence => updateStage db id .preparation confidence none
  | .terminal | .wait _ => db

/-- What a verdict answers, from the case that was read and the tables after the write. -/
def Verdict.decision (v : Verdict) (case : FundingRadarCase) (db : RadarDb) (workspaceId : Int) (chain : ChainKind)
    (recipient : String) (config : FundingRadarConfig) : FundingRadarDecision :=
  match v with
  | .terminal => ⟨case.id, chain, recipient, case.stage, some case.stage, case.confidence, none,
      "case already " ++ case.stage.asStr, countCaseEvents db case.id⟩
  | .dismiss => ⟨case.id, chain, recipient, .dismissed, some case.stage, case.confidence, none, expiredReason,
      countCaseEvents db case.id⟩
  | .deploy kinds => ⟨case.id, chain, recipient, .deployed, some case.stage, 85, none, "confirmed deployment linked",
      asU32 kinds.length⟩
  | .promote kinds confidence =>
    let updated := (fetchCase db workspaceId chain recipient).getD case
    ⟨updated.id, chain, recipient, .preparation, some case.stage, confidence,
      if config.preparationAlertConfidence ≤ confidence then some (.preparation updated kinds) else none,
      "possible project preparation", asU32 kinds.length⟩
  | .wait kinds => ⟨case.id, chain, recipient, case.stage, some case.stage, case.confidence, none,
      "awaiting more evidence (" ++ toString kinds.length ++ "/" ++ toString config.preparationEvidenceRequired ++
        " kinds, fanout " ++ toString case.fanoutCount ++ "/" ++ toString config.fanoutThreshold ++ ")",
      asU32 kinds.length⟩

/-- `evaluate_radar_case`. -/
def evaluateRadarCase (db : RadarDb) (workspaceId : Int) (chain : ChainKind) (recipient : String) (now : DateTime)
    (config : FundingRadarConfig) : RadarDb × FundingRadarDecision :=
  match fetchCase db workspaceId chain recipient with
  | none => (db, ⟨0, chain, recipient, .funded, none, 0, none, "no case", 0⟩)
  | some case =>
    let v := case.verdict db.events now config
    let after := v.write db case.id
    (after, v.decision case after workspaceId chain recipient config)

end WhaleIntelligence.Radar
