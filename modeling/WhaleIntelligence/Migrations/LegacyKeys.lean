import WhaleIntelligence.Lib.Transaction
import WhaleIntelligence.Migrations.CaseMerge

/- The second preflight, `preflight_repair_legacy_dedup_keys`, and migration 1036.

   1036 gives every alert the workspace that the second segment of its key names, and
   it casts the segment without a guard. The preflight gives the alerts whose segment
   names no workspace at all to the default one, which the cast then passes over; where
   the subject of a funding key is not a number it refuses. What `bigint` accepts as
   input is a parameter, `bigint`: `pg_input_is_valid` says whether it has a value, and
   a cast fails where it has none. A filter is applied before the cast beside it. -/
namespace WhaleIntelligence.Migrations
open WhaleIntelligence Transaction

/-! ## Tables -/

structure Workspace where
  id : Int
  slug : String
  deriving DecidableEq, Repr

/-- The table `workspaces`, with its two unique keys. -/
structure Workspaces where
  rows : List Workspace
  ids_nodup : (rows.map Workspace.id).Nodup
  slugs_nodup : (rows.map Workspace.slug).Nodup

/-- A row of `alerts`; `workspaceId` is `none` where it is NULL or there is no such column. -/
structure LegacyAlert where
  dedupKey : String
  workspaceId : Option Int
  subjectKind : String
  signalId : Option Int
  fundingCaseId : Option Int
  deriving DecidableEq, Repr

/-- The table `alerts`. -/
structure AlertsTable where
  hasWorkspaceColumn : Bool
  rows : List LegacyAlert
  noOwners : hasWorkspaceColumn = false → ∀ a ∈ rows, a.workspaceId = none

/-- A database before 1036. -/
structure LegacyDb where
  /-- `none` where the table does not exist. -/
  alerts : Option AlertsTable
  workspaces : Workspaces
  /-- The ids of `funding_radar_cases`. -/
  cases : List Int

inductive CutoverError
  | invalidBigint (text : List Char)
  | uniqueViolation (index : String)
  | undefinedTable (name : String)
  | bail (message : String)
  | fault (message : String)
  deriving DecidableEq, Repr

/-! ## Statements -/

/-- `INSERT INTO workspaces`, with the id of the row. -/
def Workspaces.insert (ws : Workspaces) (w : Workspace) : Except CutoverError Workspaces :=
  if hid : w.id ∈ ws.rows.map Workspace.id then .error (.uniqueViolation "workspaces_pkey")
  else if hslug : w.slug ∈ ws.rows.map Workspace.slug then .error (.uniqueViolation "workspaces_slug_key")
  else .ok {
    rows := ws.rows ++ [w]
    ids_nodup := by
      rw [List.map_append]
      exact List.nodup_append.mpr ⟨ws.ids_nodup, List.nodup_singleton _, fun a ha b hb hab => hid (by
        rw [List.map_singleton, List.mem_singleton] at hb
        exact hb ▸ hab ▸ ha)⟩
    slugs_nodup := by
      rw [List.map_append]
      exact List.nodup_append.mpr ⟨ws.slugs_nodup, List.nodup_singleton _, fun a ha b hb hab => hslug (by
        rw [List.map_singleton, List.mem_singleton] at hb
        exact hb ▸ hab ▸ ha)⟩ }

/-- `SELECT id FROM workspaces WHERE slug = 'default'`. -/
def Workspaces.default (ws : Workspaces) : Option Int :=
  (ws.rows.find? fun w => w.slug = "default").map Workspace.id

/-- The default workspace is inserted where it is missing; its id comes from the sequence. -/
def Workspaces.ensureDefault (ws : Workspaces) (fresh : Int) : Except CutoverError Workspaces :=
  if ws.default.isSome then .ok ws else ws.insert ⟨fresh, "default"⟩

def Workspaces.has (ws : Workspaces) (id : Int) : Bool := ws.rows.any fun w => w.id = id

/-- The table once it has the column. -/
def AlertsTable.withRows (rows : List LegacyAlert) : AlertsTable := ⟨true, rows, fun h => (by cases h)⟩

/-- A statement on `alerts`. -/
def LegacyDb.onAlerts (db : LegacyDb) (run : AlertsTable → Except CutoverError (List LegacyAlert)) :
    Except CutoverError LegacyDb :=
  match db.alerts with
  | some t => (run t).map fun rows => { db with alerts := some (.withRows rows) }
  | none => .error (.undefinedTable "alerts")

section
variable (bigint : List Char → Option Int)

def pgInputIsValid (s : List Char) : Bool := (bigint s).isSome

/-- `s::bigint`. -/
def castBigint (s : List Char) : Except CutoverError Int :=
  match bigint s with
  | some n => .ok n
  | none => .error (.invalidBigint s)

/-- `nullif(s, '')::bigint`. -/
def castSegment (s : List Char) : Except CutoverError (Option Int) :=
  if s = [] then .ok none else (castBigint bigint s).map some

/-- `safe_int8_predicate`. -/
def safeInt8Predicate (s : List Char) : Except CutoverError Bool :=
  if pgInputIsValid bigint s then (castBigint bigint s).map fun n => 0 < n else .ok false

def isFunding (a : LegacyAlert) : Bool := splitPart a.dedupKey 1 = "funding".toList

/-! ## `preflight_repair_legacy_dedup_keys` -/

/-- What the preflight asks the server, and the statements of its transaction. -/
inductive PreflightStatement
  | tableExists | columnExists | subjectCheck | detection | begin | insertDefault | addColumn | assign | commit
  deriving DecidableEq, Repr

/-- The statements that fail for reasons of their own. -/
abbrev PreflightFaults := PreflightStatement → Option String

def PreflightFaults.at (faults : PreflightFaults) (which : PreflightStatement) : Except CutoverError Unit :=
  match faults which with
  | some message => .error (.fault message)
  | none => .ok ()

def unsafeSubjectSegment (alerts : List LegacyAlert) : Except CutoverError Bool :=
  alerts.anyM fun a =>
    if isFunding a then (safeInt8Predicate bigint (splitPart a.dedupKey 3)).map not else .ok false

def needsRepair (t : AlertsTable) : Except CutoverError Bool :=
  if t.hasWorkspaceColumn then
    t.rows.anyM fun a =>
      if a.workspaceId.isNone then (safeInt8Predicate bigint (splitPart a.dedupKey 2)).map not else .ok false
  else t.rows.anyM fun a => (safeInt8Predicate bigint (splitPart a.dedupKey 2)).map not

def unsafeSubjectMessage : String :=
  "alert dedup keys of kind `funding` carry a subject segment that is not a 64-bit integer; migration 1036 casts " ++
    "that segment to bigint and would abort mid-DDL. 1036 is shipped and immutable, and rewriting the subject kind " ++
    "would violate 1035's subject CHECK, so this must be reconciled by an operator before migrating"

/-- What is read before the transaction: whether there is something to repair. -/
def preflightDecision (faults : PreflightFaults) (db : LegacyDb) : Except CutoverError Bool := do
  faults.at .tableExists
  match db.alerts with
  | none => return false
  | some t =>
    faults.at .columnExists
    faults.at .subjectCheck
    if ← unsafeSubjectSegment bigint t.rows then throw (.bail unsafeSubjectMessage)
    faults.at .detection
    needsRepair bigint t

/-- An alert without an owner whose segment is not a positive number goes to the default workspace. -/
def assignRow (ws : Workspaces) (a : LegacyAlert) : Except CutoverError LegacyAlert :=
  if a.workspaceId.isNone then do
    let ok ← safeInt8Predicate bigint (splitPart a.dedupKey 2)
    return if ok then a else { a with workspaceId := ws.default }
  else .ok a

abbrev RepairTx := Tx LegacyDb CutoverError

def repairStatement (faults : PreflightFaults) (which : PreflightStatement)
    (run : LegacyDb → Except CutoverError LegacyDb) : RepairTx Unit :=
  statement ((faults which).map .fault) fun db => (run db).map fun after => ((), after)

def repairTx (faults : PreflightFaults) (fresh : Int) : RepairTx Unit := do
  repairStatement faults .begin .ok
  repairStatement faults .insertDefault fun db =>
    (db.workspaces.ensureDefault fresh).map fun ws => { db with workspaces := ws }
  repairStatement faults .addColumn fun db => db.onAlerts fun t => .ok t.rows
  repairStatement faults .assign fun db => db.onAlerts fun t => t.rows.mapM (assignRow bigint db.workspaces)
  repairStatement faults .commit .ok

/-- The answer of the preflight and the database after it. -/
def preflightRepairLegacyDedupKeys (faults : PreflightFaults) (fresh : Int) (db : LegacyDb) :
    Except CutoverError Unit × LegacyDb :=
  match preflightDecision bigint faults db with
  | .error e => (.error e, db)
  | .ok false => (.ok (), db)
  | .ok true => commit (repairTx bigint faults fresh) db

/-! ## Migration 1036 -/

/-- Part A: an alert without an owner gets the workspace that its key names, if there is one. -/
def ownFromKey (ws : Workspaces) (a : LegacyAlert) : Except CutoverError LegacyAlert :=
  if a.workspaceId.isNone then do
    let named ← castSegment bigint (splitPart a.dedupKey 2)
    return { a with workspaceId := named.filter ws.has }
  else .ok a

/-- Part A: the default workspace takes what is left. -/
def ownByDefault (ws : Workspaces) (a : LegacyAlert) : LegacyAlert :=
  if a.workspaceId.isNone then { a with workspaceId := ws.default } else a

/-- Part B: a funding key with a live case makes its alert one of the case. -/
def classifySubject (cases : List Int) (a : LegacyAlert) : Except CutoverError LegacyAlert :=
  if isFunding a && a.subjectKind == "signal" then do
    let subject ← castSegment bigint (splitPart a.dedupKey 3)
    return match subject.filter cases.contains with
    | some id => { a with subjectKind := "funding", fundingCaseId := some id, signalId := none }
    | none => a
  else .ok a

def markUnknown (a : LegacyAlert) : LegacyAlert :=
  if isFunding a && a.subjectKind == "signal" then { a with subjectKind := "unknown" } else a

/-- Parts A and B of 1036, as far as they write `alerts` and `workspaces`. -/
def cutover1036 (fresh : Int) (db : LegacyDb) : Except CutoverError LegacyDb :=
  match db.alerts with
  | none => .ok db
  | some t => do
    let named ← t.rows.mapM (ownFromKey bigint db.workspaces)
    let ws ← db.workspaces.ensureDefault fresh
    let owned := named.map (ownByDefault ws)
    let classified ← owned.mapM (classifySubject bigint db.cases)
    return { db with alerts := some (.withRows (classified.map markUnknown)), workspaces := ws }

end

end WhaleIntelligence.Migrations
