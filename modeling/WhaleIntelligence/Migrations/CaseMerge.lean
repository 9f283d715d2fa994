import Mathlib.Data.Prod.Lex
import WhaleIntelligence.Json
import WhaleIntelligence.Lib.FirstWins
import WhaleIntelligence.Lib.Query
import WhaleIntelligence.Lib.Rekey
import WhaleIntelligence.Models
import WhaleIntelligence.Signals.Outbox

/- The third preflight: `preflight_repair_funding_case_identity`.

   It collapses the funding cases of one identity onto the case with the smallest id.
   The survivor takes the merged columns, the events follow, and the alerts of the
   cases that are merged away get the survivor's key: an alert whose new key is held
   is folded into the holder and dropped, and one statement renames the rest. That
   statement is the one that can violate a constraint. -/
namespace WhaleIntelligence.Migrations
open WhaleIntelligence Signals

/-! ## Tables -/

/-- A row of `funding_radar_cases`; `workspaceId` is `none` where the column does not exist yet. -/
structure CaseRow where
  id : Int
  workspaceId : Option Int
  chain : String
  recipient : String
  firstFundedAt : DateTime
  firstFundingUsd : Option Rat
  firstFundingNative : Rat
  sourceAddress : String
  sourceKind : Option String
  fanoutCount : Int
  deployWindowEndsAt : DateTime
  stage : RadarStage
  confidence : Int
  evidence : Json
  updatedAt : DateTime
  dismissedReason : Option String

/-- The columns that a case is grouped by. -/
def CaseRow.group (c : CaseRow) : Option Int × String × String := (c.workspaceId, c.chain, c.recipient)

/-- A row of `funding_radar_events`, by its references. -/
structure EventRow where
  id : Int
  caseId : Int
  deriving DecidableEq, Repr

/-- A row of `alerts`, by the columns that the repair reads or writes. -/
structure AlertRow where
  dedupKey : String
  fundingCaseId : Option Int
  state : AlertState
  sentAt : Option DateTime
  nextAttemptAt : Option DateTime
  claimToken : Option String
  claimExpiresAt : Option DateTime
  deriving DecidableEq, Repr

def AlertRow.setKey (a : AlertRow) (key : String) : AlertRow := { a with dedupKey := key }

structure Tables where
  cases : List CaseRow
  events : List EventRow
  alerts : List AlertRow

/-- What the catalog says of the tables. -/
structure Catalog where
  hasCases : Bool
  /-- `funding_radar_cases_tenant_uidx` exists. -/
  tenantIndex : Bool
  alertsHaveCase : Bool
  alertsHaveState : Bool
  deriving DecidableEq, Repr

/-- A database before 1037, with the constraints of its tables. -/
structure RadarDb extends Tables where
  catalog : Catalog
  noCases : catalog.hasCases = false → cases = []
  caseIds : (cases.map CaseRow.id).Nodup
  caseIdRange : ∀ c ∈ cases, -9223372036854775808 ≤ c.id ∧ c.id ≤ 9223372036854775807
  alertKeys : (alerts.map AlertRow.dedupKey).Nodup
  eventCases : ∀ e ∈ events, e.caseId ∈ cases.map CaseRow.id

/-! ## Statements 1 to 4: the cases and their events -/

/-- `jsonb_build_object('legacy_evidence', evidence)`, where it is no object. -/
def CaseRow.normalizeEvidence (c : CaseRow) : CaseRow :=
  { c with evidence := if c.evidence.isObject then c.evidence else .object [("legacy_evidence", c.evidence)] }

def groupOf (cases : List CaseRow) (c : CaseRow) : List CaseRow := cases.filter fun r => r.group = c.group

/-- `first_value(id) OVER (PARTITION BY … ORDER BY id ASC)`. -/
def keepId (cases : List CaseRow) (c : CaseRow) : Int := (Query.least CaseRow.id (groupOf cases c)).getD c.id

/-- `swi_case_merge`: the id of every case that is merged away, with the id that is kept. -/
def swiCaseMerge (cases : List CaseRow) : List (Int × Int) :=
  (cases.map fun c => (c.id, keepId cases c)).filter fun m => m.1 ≠ m.2

def stageRank : RadarStage → Nat
  | .funded => 1
  | .preparation => 2
  | .deployed => 3
  | .dismissed => 4

/-- The survivor with the merged columns of its group. -/
def CaseRow.merge (grp : List CaseRow) (c : CaseRow) : CaseRow :=
  let firstRow := (Query.latest (fun r => OrderDual.toDual (toLex (r.firstFundedAt, r.id))) grp).getD c
  let stage := ((Query.latest (fun r => toLex (stageRank r.stage, r.id)) grp).getD c).stage
  let dismissed := grp.filter fun d => d.stage = .dismissed && d.dismissedReason.isSome
  let newestFirst := grp.insertionSort fun a b => b.id ≤ a.id
  { c with
    firstFundedAt := (Query.least CaseRow.firstFundedAt grp).getD c.firstFundedAt
    stage
    confidence := (Query.greatest CaseRow.confidence grp).getD c.confidence
    fanoutCount := (Query.greatest CaseRow.fanoutCount grp).getD c.fanoutCount
    updatedAt := (Query.greatest CaseRow.updatedAt grp).getD c.updatedAt
    deployWindowEndsAt := (Query.greatest CaseRow.deployWindowEndsAt grp).getD c.deployWindowEndsAt
    firstFundingUsd := firstRow.firstFundingUsd
    firstFundingNative := firstRow.firstFundingNative
    sourceAddress := firstRow.sourceAddress
    sourceKind := firstRow.sourceKind
    -- for each key the value of the highest id
    evidence := .object (FirstWins.firstWins Prod.fst (newestFirst.flatMap fun r => r.evidence.each))
    dismissedReason :=
      if stage = .dismissed then
        (Query.latest (fun r => toLex (r.updatedAt, r.id)) dismissed).bind CaseRow.dismissedReason
      else none }

/-- The rows that `grp` joins to a survivor. -/
def mergeGroup (cases : List CaseRow) (merge : List (Int × Int)) (keep : Int) : List CaseRow :=
  cases.filter fun r => merge.contains (r.id, keep) || r.id = keep

def mergedRow (merge : List (Int × Int)) (cases : List CaseRow) (c : CaseRow) : CaseRow :=
  if merge.any fun m => m.2 = c.id then c.merge (mergeGroup cases merge c.id) else c

def mergeCases (merge : List (Int × Int)) (cases : List CaseRow) : List CaseRow := cases.map (mergedRow merge cases)

/-- `SET … = m.keep_id FROM swi_case_merge m WHERE … = m.id`. -/
def repoint (merge : List (Int × Int)) (id : Int) : Int := (merge.lookup id).getD id

/-! ## Statements 5 and 6: the alerts -/

/-- `split_part(s, ':', n)`. -/
def splitPart (s : String) (n : Nat) : List Char := ((splitWhere (· = ':') s.toList)[n - 1]?).getD []

def isSpace (c : Char) : Bool := c = ' ' || ('\t' ≤ c && c ≤ '\r')

/-- The digits of a text in which every underscore comes before a digit. -/
def underscored (digit : Char → Bool) : List Char → Option (List Char)
  | [] => some []
  | '_' :: c :: l => if digit c then (underscored digit l).map (c :: ·) else none
  | c :: l => if digit c then (underscored digit l).map (c :: ·) else none

/-- The value of a digit, with the letters from ten on. -/
def digitValue (c : Char) : Nat := if c.isDigit then c.toNat - 48 else c.toLower.toNat - 87

def digitsInput (digit : Char → Bool) (radix : Nat) (l : List Char) : Option Nat :=
  match underscored digit l with
  | some (c :: digits) => some ((c :: digits).foldl (fun n c => radix * n + digitValue c) 0)
  | _ => none

/-- The digits of an integer literal: hexadecimal, octal or binary behind their letter, and else decimal, where no
underscore may be first. -/
def unsignedInput : List Char → Option Nat
  | '0' :: x :: l =>
    if x = 'x' ∨ x = 'X' then digitsInput isAsciiHexdigit 16 l
    else if x = 'o' ∨ x = 'O' then digitsInput (fun c => '0' ≤ c && c ≤ '7') 8 l
    else if x = 'b' ∨ x = 'B' then digitsInput (fun c => c = '0' || c = '1') 2 l
    else digitsInput Char.isDigit 10 ('0' :: x :: l)
  | '_' :: _ => none
  | l => digitsInput Char.isDigit 10 l

/-- The value of a text as `bigint` input, `none` where `pg_input_is_valid` says no: an integer literal with a
    sign and spaces around, in range. -/
def bigintInput (s : List Char) : Option Int :=
  let value : Option Int :=
    match ((s.dropWhile isSpace).reverse.dropWhile isSpace).reverse with
    | '-' :: l => (unsignedInput l).map fun (n : Nat) => -(n : Int)
    | '+' :: l => (unsignedInput l).map Int.ofNat
    | l => (unsignedInput l).map Int.ofNat
  value.filter fun n => -9223372036854775808 ≤ n ∧ n ≤ 9223372036854775807

/-- The case that a funding key names, where `safe_int8_predicate` holds of its segment. -/
def keySubject (key : String) : Option Int :=
  if splitPart key 1 = "funding".toList then (bigintInput (splitPart key 3)).filter (0 < ·) else none

/-- The key with its subject segment rewritten; the destination is all that follows the third colon. -/
def rewriteSubject (key : String) (keep : Int) : String :=
  let length := (splitPart key 1).length + (splitPart key 2).length + (splitPart key 3).length
  "funding:" ++ String.ofList (splitPart key 2) ++ ":" ++ toString keep ++ ":" ++
    String.ofList (key.toList.drop (length + 3))

/-- The key of the kept case in place of the key of a case that is merged away. -/
def newKey (merge : List (Int × Int)) (key : String) : Option String := do
  let subject ← keySubject key
  let keep ← merge.lookup subject
  return rewriteSubject key keep

/-- `swi_alert_rekey`: the old keys with their new ones. -/
def swiAlertRekey (merge : List (Int × Int)) (alerts : List AlertRow) : List (String × String) :=
  (alerts.filterMap fun a => (newKey merge a.dedupKey).map fun new => (a.dedupKey, new)).filter fun r => r.1 ≠ r.2

/-- An alert that is sent under a key that this one's key replaces. -/
def foldSource (rekey : List (String × String)) (alerts : List AlertRow) (t : AlertRow) : Option AlertRow :=
  alerts.find? fun s => s.state = .sent && rekey.contains (s.dedupKey, t.dedupKey)

/-- Folds the delivery of a stale alert into the holder of its new key. Of several sources one is taken. -/
def foldedAlert (rekey : List (String × String)) (alerts : List AlertRow) (t : AlertRow) : AlertRow :=
  match foldSource rekey alerts t with
  | some s =>
    if t.state = .sent then t
    else { t with
      state := .sent
      sentAt := t.sentAt.or s.sentAt
      nextAttemptAt := none
      claimToken := none
      claimExpiresAt := none }
  | none => t

inductive RepairError
  | uniqueViolation (index : String)
  deriving DecidableEq, Repr

/-- The alerts after the fold. -/
def foldedAlerts (merge : List (Int × Int)) (hasState : Bool) (alerts : List AlertRow) : List AlertRow :=
  if hasState then alerts.map (foldedAlert (swiAlertRekey merge alerts) alerts) else alerts

/-- The fold, the `DELETE` of the alerts whose new key is held, and the bulk `UPDATE` of the primary key. New
    keys are never old keys, so on its way the `UPDATE` meets no other collision than those left at its end. -/
def rekeyAlerts (merge : List (Int × Int)) (hasState : Bool) (alerts : List AlertRow) :
    Except RepairError (List AlertRow) :=
  let rename (key : String) := (swiAlertRekey merge alerts).lookup key
  let kept := Rekey.dropStale AlertRow.dedupKey rename (foldedAlerts merge hasState alerts)
  let renamed := Rekey.rekeyed AlertRow.dedupKey AlertRow.setKey rename kept
  if (renamed.map AlertRow.dedupKey).Nodup then .ok renamed else .error (.uniqueViolation "alerts_pkey")

/-! ## The repair -/

/-- Statements 3 to 7, with `ON DELETE CASCADE` for events and `ON DELETE SET NULL` for alerts. -/
def mergeAway (catalog : Catalog) (merge : List (Int × Int)) (t : Tables) : Except RepairError Tables := do
  let cases := mergeCases merge t.cases
  let events := t.events.map fun e => { e with caseId := repoint merge e.caseId }
  let alerts ←
    if catalog.alertsHaveCase then
      rekeyAlerts merge catalog.alertsHaveState
        (t.alerts.map fun a => { a with fundingCaseId := a.fundingCaseId.map (repoint merge) })
    else .ok t.alerts
  let gone := merge.map Prod.fst
  return {
    cases := cases.filter fun c => !gone.contains c.id
    events := events.filter fun e => !gone.contains e.caseId
    alerts := alerts.map fun a => { a with fundingCaseId := a.fundingCaseId.filter fun id => !gone.contains id } }

/-- `preflight_repair_funding_case_identity`. -/
def preflightRepairFundingCaseIdentity (db : RadarDb) : Except RepairError Tables :=
  if !db.catalog.hasCases then .ok db.toTables
  else if db.catalog.tenantIndex then .ok db.toTables
  else
    let nonObjectEvidence := db.cases.any fun c => !c.evidence.isObject
    let hasDuplicates := db.cases.any fun c => 1 < (groupOf db.cases c).length
    if !nonObjectEvidence && !hasDuplicates then .ok db.toTables
    else
      let t := { db.toTables with cases := db.cases.map CaseRow.normalizeEvidence }
      let merge := swiCaseMerge t.cases
      if merge.isEmpty then .ok t else mergeAway db.catalog merge t

end WhaleIntelligence.Migrations
