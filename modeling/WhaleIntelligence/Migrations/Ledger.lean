import WhaleIntelligence.Migrations.Bundle

/- The migration ledger: the loop of `migrate_bundle_with`, and `ensure_schema_current`.

   The loop goes through the bundle in the order of its names. A file without a row
   is executed and recorded; a row is checked against its file, and a row of unknown
   history is declared a baseline where the operator consents. `ensure_schema_current`
   checks the same ledger and writes nothing. Each is described by what it asks of
   one row: `Current` for the verification, and for a round of the loop
   `migrateEntry_cases`. -/
namespace WhaleIntelligence.Migrations
open WhaleIntelligence

/-! ## The ledger -/

/-- The values that the CHECK on `digest_origin` admits beside NULL. -/
inductive DigestOrigin
  | applied | baseline
  deriving DecidableEq, Repr

structure LedgerRow where
  name : String
  sha256 : Option String
  digestOrigin : Option DigestOrigin
  deriving DecidableEq, Repr

/-- The table `_migrations`, whose primary key is the name. -/
structure Ledger where
  rows : List LedgerRow
  names_nodup : (rows.map LedgerRow.name).Nodup

def Ledger.row (l : Ledger) (name : String) : Option LedgerRow := l.rows.find? fun r => r.name = name

/-- `UPDATE _migrations SET sha256 = $2, digest_origin = 'baseline' WHERE name = $1`. -/
def Ledger.declareBaseline (l : Ledger) (name recorded : String) : Ledger where
  rows := l.rows.map fun r =>
    if r.name = name then { r with sha256 := some recorded, digestOrigin := some .baseline } else r
  names_nodup := by
    rw [List.map_map]
    convert l.names_nodup using 2
    funext r
    show LedgerRow.name (if _ then _ else _) = _
    split <;> rfl

/-- `INSERT INTO _migrations (name, sha256, digest_origin) VALUES ($1, $2, 'applied')`, for a new name. -/
def Ledger.insertApplied (l : Ledger) (name digest : String) (fresh : l.row name = none) : Ledger where
  rows := l.rows ++ [⟨name, some digest, some .applied⟩]
  names_nodup := by
    rw [List.map_append, List.nodup_append]
    refine ⟨l.names_nodup, List.nodup_singleton _, ?_⟩
    intro a ha b hb hab
    obtain ⟨r, hr, rfl⟩ := List.mem_map.mp ha
    have hname := List.find?_eq_none.mp fresh r hr
    rw [List.map_singleton, List.mem_singleton] at hb
    simp [hab, hb] at hname

/-- The ledger, and the SQL that was run on the rest of the database. -/
structure Database where
  ledger : Ledger
  executed : List String

/-! ## Recorded digests -/

def baselinePrefix : String := "baseline:"

def isBaseline (recorded : String) : Bool := (stripPrefix baselinePrefix recorded).isSome

/-- The digest inside a recorded value, whether observed or baseline. -/
def recordedDigest (recorded : String) : String := (stripPrefix baselinePrefix recorded).getD recorded

/-! ## `migrate_bundle_with` -/

inductive MigrateError
  | noProvenance (name : String)
  | predatesDigests (name : String)
  | cannotBackfill (name digest expected : String)
  | noManifestEntry (name : String)
  | edited (name ledger disk : String)
  /-- `short_digest` cut a character. -/
  | slicePanic
  deriving DecidableEq, Repr

section
variable {x : Crates} (bundle : MigrationBundle x) (acceptLegacyBaseline : Bool)

/-- A bail whose message shortens two digests. -/
def bailShort (a b : String) (e : String → String → MigrateError) : MigrateError :=
  match shortDigest a, shortDigest b with
  | some a, some b => e a b
  | _, _ => .slicePanic

/-- The part of a round for a file that has a row; where it bails it has written nothing. -/
def migrateRow (db : Database) (name digest : String) (row : LedgerRow) : Except MigrateError Database :=
  match row.sha256, row.digestOrigin with
  | some recorded, none =>
    if acceptLegacyBaseline then
      -- the source goes on to the next file here, without comparing anything
      .ok { db with ledger := db.ledger.declareBaseline name (baselinePrefix ++ recordedDigest recorded) }
    else .error (.noProvenance name)
  | none, _ =>
    match bundle.manifestDigest name with
    | some expected =>
      if expected = digest then
        if acceptLegacyBaseline then
          .ok { db with ledger := db.ledger.declareBaseline name (baselinePrefix ++ digest) }
        else .error (.predatesDigests name)
      else .error (bailShort digest expected (.cannotBackfill name))
    | none => .error (.noManifestEntry name)
  | some recorded, some _ =>
    if recordedDigest recorded ≠ digest then .error (bailShort (recordedDigest recorded) digest (.edited name))
    else .ok db

/-- One round of the loop. -/
def migrateEntry (db : Database) (entry : String × String) : Except MigrateError Database :=
  let (name, sql) := entry
  let digest := migrationSha256 x sql
  match fresh : db.ledger.row name with
  | some row => migrateRow bundle acceptLegacyBaseline db name digest row
  | none => .ok { ledger := db.ledger.insertApplied name digest fresh, executed := db.executed ++ [sql] }

/-- The rounds up to the first that bails, with what they wrote. -/
def migrateLoop : List (String × String) → Database → Except MigrateError Unit × Database
  | [], db => (.ok (), db)
  | entry :: entries, db =>
    match migrateEntry bundle acceptLegacyBaseline db entry with
    | .ok db => migrateLoop entries db
    | .error e => (.error e, db)

/-- The filename-order loop of `migrate_bundle_with`. -/
def migrateBundleWith (db : Database) : Except MigrateError Unit × Database :=
  migrateLoop bundle acceptLegacyBaseline bundle.entries db

end

/-! ## `ensure_schema_current` -/

inductive CurrentError
  | pending (count : Nat) (names : List String)
  | mismatched (files : List (String × String × String))
  | unknown (count : Nat) (names : List String)
  | unverifiable (count : Nat) (names : List String)
  | provenanceless (count : Nat) (names : List String)
  /-- `short_digest` cut a character. -/
  | slicePanic
  deriving DecidableEq, Repr

/-- What the scan of the files has found so far. -/
structure Findings where
  pending : List String
  mismatched : List (String × String × String)
  unverifiable : List String
  baseline : List String
  deriving DecidableEq, Repr

def Findings.addMismatch (f : Findings) (name recorded digest : String) : Except CurrentError Findings :=
  match shortDigest recorded, shortDigest digest with
  | some recorded, some digest => .ok { f with mismatched := f.mismatched ++ [(name, recorded, digest)] }
  | _, _ => .error .slicePanic

/-- One round of the scan. -/
def Findings.scan (ledger : Ledger) (f : Findings) (file : String × String) : Except CurrentError Findings :=
  let (name, digest) := file
  match ledger.row name with
  | none => .ok { f with pending := f.pending ++ [name] }
  | some row =>
    match row.sha256 with
    | some recorded =>
      if isBaseline recorded then
        if recordedDigest recorded ≠ digest then f.addMismatch name (recordedDigest recorded) digest
        else .ok { f with baseline := f.baseline ++ [name] }
      else if recorded ≠ digest then f.addMismatch name recorded digest
      else .ok f
    | none => .ok { f with unverifiable := f.unverifiable ++ [name] }

/-- The verification of `ensure_schema_current`, on a ledger that has both columns. Baseline rows only warn. -/
def ensureSchemaCurrent {x : Crates} (bundle : MigrationBundle x) (ledger : Ledger) : Except CurrentError Unit := do
  let onDisk := bundle.entries.map fun e => (e.1, migrationSha256 x e.2)
  let provenanceless :=
    (ledger.rows.filter fun r => r.sha256.isSome && r.digestOrigin.isNone).map LedgerRow.name
  let f ← onDisk.foldlM (Findings.scan ledger) ⟨[], [], [], []⟩
  let unknown := (ledger.rows.map LedgerRow.name).filter fun n => !(onDisk.map Prod.fst).contains n
  if !f.pending.isEmpty then .error (.pending f.pending.length (f.pending.take 3))
  else if !f.mismatched.isEmpty then .error (.mismatched f.mismatched)
  else if !unknown.isEmpty then .error (.unknown unknown.length (unknown.take 3))
  else if !f.unverifiable.isEmpty then .error (.unverifiable f.unverifiable.length (f.unverifiable.take 3))
  else if !provenanceless.isEmpty then
    .error (.provenanceless provenanceless.length ((provenanceless.insertionSort (· ≤ ·)).take 3))
  else .ok ()

end WhaleIntelligence.Migrations
