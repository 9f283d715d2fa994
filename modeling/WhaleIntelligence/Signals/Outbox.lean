import WhaleIntelligence.Lib.KeyedTable
import WhaleIntelligence.Lib.Runs
import WhaleIntelligence.Rust

/- The alert outbox: `claim_alert`, `mark_alert_sent`, `mark_alert_failed`.

   A row of `alerts` is one delivery. A dispatcher claims it under a token of its
   own for the time of a lease, delivers it and marks it sent or failed. Each SQL
   statement is one step at the time of the database, and the three statements of
   a claim are three steps, between which others may come. A claim that stops on the
   way, by a crash or an error of the database, just takes no further step. -/
namespace WhaleIntelligence.Signals
open WhaleIntelligence KeyedTable

/-! ## Rows -/

def alertMaxAttempts : Int := 8

def alertMaxRetryAfterSeconds : Nat := 600

def alertClaimLeaseSeconds : Int := 120

/-- What a dispatcher asks to deliver. -/
structure Delivery where
  kind : String
  workspaceId : Int
  subjectId : Int
  destination : String
  deriving DecidableEq, Repr

def alertDedupKey (kind : String) (workspaceId subjectId : Int) (destination : String) : String :=
  kind ++ ":" ++ toString workspaceId ++ ":" ++ toString subjectId ++ ":" ++ destination

def Delivery.key (d : Delivery) : String := alertDedupKey d.kind d.workspaceId d.subjectId d.destination

inductive AlertState where
  | pending | sent | dead
  deriving DecidableEq, Repr

/-- A row of `alerts`, without its key. -/
structure AlertRow where
  subjectKind : String
  workspaceId : Int
  signalId : Option Int
  fundingCaseId : Option Int
  destination : String
  state : AlertState
  attemptCount : Int
  nextAttemptAt : Option DateTime
  claimToken : Option String
  claimExpiresAt : Option DateTime
  sentAt : Option DateTime
  lastError : Option String
  deriving DecidableEq, Repr

abbrev Alerts := Table String AlertRow

/-- `claim_expires_at IS NULL OR claim_expires_at <= now()`. -/
def AlertRow.unleased (r : AlertRow) (now : DateTime) : Bool :=
  match r.claimExpiresAt with
  | none => true
  | some expires => expires ≤ now

/-- `next_attempt_at <= now()`, false of NULL. -/
def AlertRow.due (r : AlertRow) (now : DateTime) : Bool :=
  match r.nextAttemptAt with
  | none => false
  | some next => next ≤ now

/-! ## The statements of a claim -/

/-- An exhausted row is dead. -/
def AlertRow.exhaust (r : AlertRow) : AlertRow :=
  { r with state := .dead, nextAttemptAt := none, claimToken := none, claimExpiresAt := none }

/-- The first statement of `claim_alert`. -/
def sweepExhausted (now : DateTime) (key : String) (alerts : Alerts) : Alerts :=
  alerts.updateWhere key
    (fun r => r.state == .pending && decide (alertMaxAttempts ≤ r.attemptCount) && r.unleased now) AlertRow.exhaust

/-- Why `claim_alert` refuses. -/
inductive ClaimError where
  | unknownKind (kind : String)
  | notOwned (caseId workspaceId : Int)
  deriving DecidableEq, Repr

/-- The columns `signal_id` and `funding_case_id` of the subject. `owned` is the answer
of the query whether the workspace owns the funding case. -/
def subjectColumns (d : Delivery) (owned : Bool) : Except ClaimError (Option Int × Option Int) :=
  if d.kind = "signal" then .ok (some d.subjectId, none)
  else if d.kind = "funding" then
    if owned then .ok (none, some d.subjectId) else .error (.notOwned d.subjectId d.workspaceId)
  else .error (.unknownKind d.kind)

/-- The row that the first claim of a delivery inserts. -/
def newRow (now : DateTime) (d : Delivery) (signalId fundingCaseId : Option Int) (token : String) : AlertRow where
  subjectKind := d.kind
  workspaceId := d.workspaceId
  signalId := signalId
  fundingCaseId := fundingCaseId
  destination := d.destination
  state := .pending
  attemptCount := 1
  nextAttemptAt := some (now + seconds alertClaimLeaseSeconds)
  claimToken := some token
  claimExpiresAt := some (now + seconds alertClaimLeaseSeconds)
  sentAt := none
  lastError := none

def AlertRow.claimable (r : AlertRow) (now : DateTime) : Bool :=
  r.state == .pending && r.due now && r.unleased now && decide (r.attemptCount < alertMaxAttempts)

def AlertRow.claim (r : AlertRow) (now : DateTime) (token : String) : AlertRow :=
  { r with
    claimToken := some token
    claimExpiresAt := some (now + seconds alertClaimLeaseSeconds)
    nextAttemptAt := some (now + seconds alertClaimLeaseSeconds)
    attemptCount := r.attemptCount + 1 }

/-- The last statement of `claim_alert`. -/
def claimRow (now : DateTime) (d : Delivery) (signalId fundingCaseId : Option Int) (token : String)
    (alerts : Alerts) : Alerts :=
  alerts.upsert d.key (newRow now d signalId fundingCaseId token) (AlertRow.claimable · now)
    (AlertRow.claim · now token)

/-- The attempt number that it returns, if it claims the row. -/
def claimedAttempt (now : DateTime) (d : Delivery) (signalId fundingCaseId : Option Int) (token : String)
    (alerts : Alerts) : Option Int :=
  (alerts.upserted d.key (newRow now d signalId fundingCaseId token) (AlertRow.claimable · now)
    (AlertRow.claim · now token)).map AlertRow.attemptCount

/-! ## Completion -/

/-- `state = 'pending' AND claim_token = $2`. -/
def AlertRow.heldBy (r : AlertRow) (token : String) : Bool := r.state == .pending && r.claimToken == some token

def AlertRow.markSent (r : AlertRow) (now : DateTime) : AlertRow :=
  { r with
    state := .sent
    sentAt := some now
    lastError := none
    claimToken := none
    claimExpiresAt := none
    nextAttemptAt := none }

def markAlertSent (now : DateTime) (d : Delivery) (token : String) (alerts : Alerts) : Alerts :=
  alerts.updateWhere d.key (AlertRow.heldBy · token) (AlertRow.markSent · now)

def backoffSeconds (attempt : Int) (retryAfterSeconds : Option Nat) : Nat :=
  match retryAfterSeconds with
  | some s => min s alertMaxRetryAfterSeconds
  | none => min (60 <<< min (asU32 attempt) 6) 3600

def AlertRow.markFailed (r : AlertRow) (now : DateTime) (attempt : Int) (error : String) (permanent : Bool)
    (retryAfterSeconds : Option Nat) : AlertRow :=
  let dead := permanent || decide (alertMaxAttempts ≤ attempt)
  { r with
    lastError := some error
    state := if dead then .dead else .pending
    nextAttemptAt := if dead then none else some (now + seconds (backoffSeconds attempt retryAfterSeconds))
    claimToken := none
    claimExpiresAt := none }

def markAlertFailed (now : DateTime) (d : Delivery) (token : String) (attempt : Int) (error : String)
    (permanent : Bool) (retryAfterSeconds : Option Nat) (alerts : Alerts) : Alerts :=
  alerts.updateWhere d.key (AlertRow.heldBy · token)
    (AlertRow.markFailed · now attempt error permanent retryAfterSeconds)

/-- What both completions return. -/
def completes (d : Delivery) (token : String) (alerts : Alerts) : Bool :=
  alerts.affects d.key (AlertRow.heldBy · token)

/-! ## Steps -/

/-- How far a call of `claim_alert` is. -/
inductive Stage where
  | swept
  | checked (signalId fundingCaseId : Option Int)
  | ended
  deriving DecidableEq, Repr

structure Call where
  delivery : Delivery
  stage : Stage
  deriving DecidableEq, Repr

/-- The database and the calls of `claim_alert`, by their tokens. -/
structure Outbox where
  now : DateTime
  alerts : Alerts
  calls : Table String Call

/-- The clock, the three statements of a claim, and the two completions with what
they return. -/
inductive Event where
  | tick (now : DateTime)
  | sweep (d : Delivery) (token : String)
  | check (token : String) (owned : Bool)
  | claim (d : Delivery) (token : String) (now : DateTime) (attempt : Option Int)
  | sent (d : Delivery) (token : String) (recorded : Bool)
  | failed (d : Delivery) (token : String) (attempt : Int) (error : String) (permanent : Bool)
      (retryAfterSeconds : Option Nat) (recorded : Bool)
  deriving DecidableEq, Repr

/-- The stage after the check of the subject. -/
def checkedStage (d : Delivery) (owned : Bool) : Stage :=
  match subjectColumns d owned with
  | .ok columns => .checked columns.1 columns.2
  | .error _ => .ended

/-- Every call of `claim_alert` draws a token of its own. A completion may present any
token and, for a failure, any attempt number. -/
def Step (s : Outbox) (e : Event) (s' : Outbox) : Prop :=
  match e with
  | .tick now => s.now ≤ now ∧ s' = { s with now := now }
  | .sweep d token => s.calls token = none ∧
      s' = { s with alerts := sweepExhausted s.now d.key s.alerts, calls := s.calls.set token (some ⟨d, .swept⟩) }
  | .check token owned => ∃ d, s.calls token = some ⟨d, .swept⟩ ∧
      s' = { s with calls := s.calls.set token (some ⟨d, checkedStage d owned⟩) }
  | .claim d token now attempt => ∃ signalId caseId, s.calls token = some ⟨d, .checked signalId caseId⟩ ∧
      now = s.now ∧ attempt = claimedAttempt s.now d signalId caseId token s.alerts ∧
      s' = { s with
        alerts := claimRow s.now d signalId caseId token s.alerts
        calls := s.calls.set token (some ⟨d, .ended⟩) }
  | .sent d token recorded => recorded = completes d token s.alerts ∧
      s' = { s with alerts := markAlertSent s.now d token s.alerts }
  | .failed d token attempt error permanent retryAfter recorded => recorded = completes d token s.alerts ∧
      s' = { s with alerts := markAlertFailed s.now d token attempt error permanent retryAfter s.alerts }

end WhaleIntelligence.Signals
