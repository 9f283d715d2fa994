import WhaleIntelligence.Lib.Pruning
import WhaleIntelligence.Rust

/- Retention: the task that prunes the disposable tables, and the state that its health
   is read from.

   A cycle deletes batches of expired raw events until one finds nothing, forty at
   most, and then the expired market snapshots. Every statement has its own time, rows
   arrive between the statements, and each statement can fail, which ends the cycle
   with what it has deleted until then gone. What the health report shows is counted
   from the cycles that succeed. -/
namespace WhaleIntelligence.Maintenance
open WhaleIntelligence Pruning

/-! ## Tables -/

/-- A row of `raw_events` without its payload. -/
structure RawEvent where
  chain : String
  source : String
  signature : String
  observedAt : DateTime
  deriving DecidableEq, Repr

/-- The primary key. -/
def RawEvent.key (r : RawEvent) : String × String × String := (r.chain, r.source, r.signature)

/-- A row of `market_snapshots` without its figures. -/
structure MarketSnapshot where
  chain : String
  mint : String
  observedAt : DateTime
  deriving DecidableEq, Repr

structure Store where
  rawEvents : List RawEvent
  marketSnapshots : List MarketSnapshot
  rawEvents_pk : (rawEvents.map RawEvent.key).Nodup

/-- `INSERT INTO raw_events … ON CONFLICT (chain, source, signature) DO NOTHING`. -/
def Store.insertRawEvent (s : Store) (r : RawEvent) : Store :=
  if h : r.key ∈ s.rawEvents.map RawEvent.key then s
  else
    { s with
      rawEvents := s.rawEvents ++ [r]
      rawEvents_pk := by
        rw [List.map_append, List.map_singleton]
        exact List.nodup_append.mpr ⟨s.rawEvents_pk, List.nodup_singleton _, by
          rintro k hk k' hk' rfl
          rw [List.mem_singleton.mp hk'] at hk
          exact h hk⟩ }

/-- When a statement runs, the error it meets, and what has arrived before it. -/
structure Moment where
  now : DateTime
  fault : Option String
  rawEvents : List RawEvent
  marketSnapshots : List MarketSnapshot

def Store.arrive (s : Store) (m : Moment) : Store :=
  let t := m.rawEvents.foldl Store.insertRawEvent s
  { t with marketSnapshots := t.marketSnapshots ++ m.marketSnapshots }

/-! ## Statements -/

def BATCH_LIMIT : Nat := 5000

def MAX_BATCHES_PER_CYCLE : Nat := 40

/-- `now() - ($1 || ' days')::interval`. -/
def cutoff (now : DateTime) (retentionDays : Int) : DateTime := now - seconds (retentionDays * 86400)

def expiredRaw (now : DateTime) (retentionDays : Int) (r : RawEvent) : Bool :=
  decide (r.observedAt < cutoff now retentionDays)

def expiredSnapshot (now : DateTime) (retentionDays : Int) (r : MarketSnapshot) : Bool :=
  decide (r.observedAt < cutoff now retentionDays)

theorem nodup_of_pk (s : Store) : s.rawEvents.Nodup := List.Nodup.of_map _ s.rawEvents_pk

/-- `prune_raw_events_batch`, as it is called with the limit on batches. -/
def pruneRawEventsBatch (m : Moment) (retentionDays : Int) (s : Store) : Except String Nat × Store :=
  let t := s.arrive m
  match m.fault with
  | some e => (.error e, t)
  | none =>
    let expired := expiredRaw m.now retentionDays
    (.ok (oldest (·.observedAt) expired BATCH_LIMIT t.rawEvents).length,
      { t with
        rawEvents := prune (·.observedAt) expired BATCH_LIMIT t.rawEvents
        rawEvents_pk := t.rawEvents_pk.sublist (prune_sublist.map _) })

def pruneMarketSnapshots (m : Moment) (retentionDays : Int) (s : Store) : Except String Nat × Store :=
  let t := s.arrive m
  match m.fault with
  | some e => (.error e, t)
  | none =>
    (.ok (t.marketSnapshots.countP (expiredSnapshot m.now retentionDays)),
      { t with marketSnapshots := t.marketSnapshots.filter fun r => !expiredSnapshot m.now retentionDays r })

/-- `SELECT min(observed_at) FROM raw_events`. -/
def oldestRetainedRawEvent (m : Moment) (s : Store) : Except String (Option DateTime) × Store :=
  let t := s.arrive m
  match m.fault with
  | some e => (.error e, t)
  | none => (.ok (t.rawEvents.map (·.observedAt)).min?, t)

/-! ## Cycles -/

/-- The loop over the batches from the i-th statement on: the rows it has pruned, which are summed in a `u64`, and
the next statement. -/
def pruneBatches (env : Nat → Moment) (retentionDays : Int) :
    Nat → Nat → UInt64 → Store → Except String (UInt64 × Nat) × Store
  | 0, i, total, s => (.ok (total, i), s)
  | batches + 1, i, total, s =>
    match pruneRawEventsBatch (env i) retentionDays s with
    | (.error e, t) => (.error e, t)
    | (.ok n, t) =>
      let total := total + UInt64.ofNat n
      if n = 0 then (.ok (total, i + 1), t) else pruneBatches env retentionDays batches (i + 1) total t

/-- A cycle: the rows it has pruned, and the number of its statements. -/
def runCycle (env : Nat → Moment) (retentionDays : Int) (s : Store) : Except String (UInt64 × Nat) × Store :=
  match pruneBatches env retentionDays MAX_BATCHES_PER_CYCLE 0 0 s with
  | (.error e, t) => (.error e, t)
  | (.ok (total, i), t) =>
    match pruneMarketSnapshots (env i) retentionDays t with
    | (.error e, t) => (.error e, t)
    | (.ok n, t) => (.ok (total + UInt64.ofNat n, i + 1), t)

/-! ## Health -/

structure MaintenanceState where
  lastSuccessUnix : Int
  lastErrorUnix : Int
  lastError : Option String
  rowsPrunedTotal : UInt64
  oldestRetainedUnix : Int
  intervalSecs : Int64
  started : Bool
  startedAtUnix : Int
  deriving DecidableEq, Repr

def unixToDt (secs : Int) : Option DateTime := if secs ≤ 0 then none else some (seconds secs)

def MaintenanceState.lastSuccess (h : MaintenanceState) : Option DateTime := unixToDt h.lastSuccessUnix

def MaintenanceState.startedAt (h : MaintenanceState) : Option DateTime := unixToDt h.startedAtUnix

def MaintenanceState.nextRun (h : MaintenanceState) : Option DateTime :=
  h.lastSuccess.bind fun last => if h.intervalSecs ≤ 0 then none else some (last + seconds h.intervalSecs.toInt)

/-- The two intervals are `iv * 2`, which wraps in the release build. -/
def MaintenanceState.isStale (h : MaintenanceState) (now : DateTime) : Bool :=
  if !h.started then false
  else if h.intervalSecs ≤ 0 then true
  else match h.lastSuccess with
    | none =>
      match h.startedAt with
      | some started => decide ((h.intervalSecs * 2).toInt < numSeconds (now - started))
      | none => true
    | some last => decide ((h.intervalSecs * 2).toInt < numSeconds (now - last))

/-- `fetch_add` wraps in every build. -/
def MaintenanceState.recordSuccess (h : MaintenanceState) (now : DateTime) (rows : UInt64)
    (oldest : Option DateTime) : MaintenanceState :=
  { h with
    lastSuccessUnix := timestamp now
    rowsPrunedTotal := h.rowsPrunedTotal + rows
    oldestRetainedUnix := (oldest.map timestamp).getD 0
    lastError := none }

def MaintenanceState.recordError (h : MaintenanceState) (now : DateTime) (e : String) : MaintenanceState :=
  { h with
    lastErrorUnix := timestamp now
    lastError := some e }

/-- The state of a task that is started with the interval, whose seconds are cast, `as_secs() as i64`. -/
def spawned (now : DateTime) (interval : UInt64) : MaintenanceState where
  lastSuccessUnix := 0
  lastErrorUnix := 0
  lastError := none
  rowsPrunedTotal := 0
  oldestRetainedUnix := 0
  intervalSecs := interval.toInt64
  started := true
  startedAtUnix := timestamp now

/-- What a cycle meets: its statements, and the time at its end. -/
structure Cycle where
  env : Nat → Moment
  finished : DateTime

def runCycleRecording (retentionDays : Int) (c : Cycle) (s : Store) (h : MaintenanceState) :
    Except String UInt64 × Store × MaintenanceState :=
  match runCycle c.env retentionDays s with
  | (.ok (rows, i), t) =>
    let (read, u) := oldestRetainedRawEvent (c.env i) t
    let oldest := match read with
      | .ok oldest => oldest
      | .error _ => none
    (.ok rows, u, h.recordSuccess c.finished rows oldest)
  | (.error e, t) => (.error e, t, h.recordError c.finished e)

/-- One round of the loop of the task. -/
def round (retentionDays : Int) (s : Store × MaintenanceState) (c : Cycle) : Store × MaintenanceState :=
  (runCycleRecording retentionDays c s.1 s.2).2

/-! ## Configuration -/

def MIN_RETENTION_DAYS : Int := 1

def MAX_RETENTION_DAYS : Int := 3650

def effectiveRetentionDays (profileDays : Int) (overrideDays : Option Int) : Except String Int :=
  let days := overrideDays.getD profileDays
  if days < MIN_RETENTION_DAYS then
    .error s!"retention must be at least {MIN_RETENTION_DAYS} day(s); configured {days}"
  else if MAX_RETENTION_DAYS < days then
    .error (s!"retention of {days} days exceeds the {MAX_RETENTION_DAYS}-day maximum; " ++
      "refusing a value this far outside the intended range")
  else .ok days

end WhaleIntelligence.Maintenance
