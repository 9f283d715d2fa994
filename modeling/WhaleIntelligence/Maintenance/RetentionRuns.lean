import Mathlib.Algebra.Ring.Nat
import Mathlib.Data.UInt
import WhaleIntelligence.Maintenance.Retention

/- What retention does over any run of its cycles, whatever arrives in between.

   The rows that are gone had expired when a statement of some cycle ran
   (`rounds_justified`), so that a validated retention keeps every row of its last days
   (`retention_keeps`). The rows that have expired before a time are pruned at the full
   rate of the cycles, however much expires after it (`backlog_drained`). The health of
   the task goes by its last success (`rounds_health`). -/
namespace WhaleIntelligence.Maintenance
open WhaleIntelligence Pruning

section
variable {s t u : Store} {m : Moment} {d : Int} {P : DateTime → Prop} {env : Nat → Moment}

/-! ## What is deleted -/

/-- The rows that the second store lacks had expired at times that are allowed. -/
structure Justified (d : Int) (P : DateTime → Prop) (s t : Store) : Prop where
  rawEvents : ∀ r ∈ s.rawEvents, r ∉ t.rawEvents → ∃ now, P now ∧ expiredRaw now d r = true
  marketSnapshots : ∀ r ∈ s.marketSnapshots, r ∉ t.marketSnapshots →
    ∃ now, P now ∧ expiredSnapshot now d r = true

theorem Justified.trans (h : Justified d P s t) (h' : Justified d P t u) : Justified d P s u where
  rawEvents r hr hgone := by
    by_cases hmid : r ∈ t.rawEvents
    · exact h'.rawEvents r hmid hgone
    · exact h.rawEvents r hr hmid
  marketSnapshots r hr hgone := by
    by_cases hmid : r ∈ t.marketSnapshots
    · exact h'.marketSnapshots r hmid hgone
    · exact h.marketSnapshots r hr hmid

theorem Justified.of_subset (hraw : ∀ r ∈ s.rawEvents, r ∈ t.rawEvents)
    (hmarket : ∀ r ∈ s.marketSnapshots, r ∈ t.marketSnapshots) : Justified d P s t :=
  ⟨fun r hr hgone => absurd (hraw r hr) hgone, fun r hr hgone => absurd (hmarket r hr) hgone⟩

theorem insertRawEvent_eq (s : Store) (r : RawEvent) :
    (s.insertRawEvent r).rawEvents = s.rawEvents ∨ (s.insertRawEvent r).rawEvents = s.rawEvents ++ [r] := by
  unfold Store.insertRawEvent
  split
  · exact Or.inl rfl
  · exact Or.inr rfl

theorem insertRawEvent_marketSnapshots (s : Store) (r : RawEvent) :
    (s.insertRawEvent r).marketSnapshots = s.marketSnapshots := by
  unfold Store.insertRawEvent
  split <;> rfl

/-- What arrives comes behind the rows that are there, and is among the rows of the moment. -/
theorem foldl_insertRawEvent (rows : List RawEvent) (s : Store) :
    (∃ added, (rows.foldl Store.insertRawEvent s).rawEvents = s.rawEvents ++ added ∧ ∀ r ∈ added, r ∈ rows) ∧
      (rows.foldl Store.insertRawEvent s).marketSnapshots = s.marketSnapshots := by
  induction rows generalizing s with
  | nil => exact ⟨⟨[], (List.append_nil _).symm, by simp⟩, rfl⟩
  | cons r rows ih =>
    obtain ⟨⟨added, hadded, hfrom⟩, hmarket⟩ := ih (s.insertRawEvent r)
    refine ⟨?_, hmarket.trans (insertRawEvent_marketSnapshots s r)⟩
    rw [List.foldl_cons, hadded]
    rcases insertRawEvent_eq s r with hsame | hnew
    · exact ⟨added, by rw [hsame], fun a ha => List.mem_cons_of_mem _ (hfrom a ha)⟩
    · refine ⟨r :: added, by rw [hnew, List.append_assoc, List.singleton_append], fun a ha => ?_⟩
      rcases List.mem_cons.mp ha with rfl | ha
      · exact List.mem_cons_self
      · exact List.mem_cons_of_mem _ (hfrom a ha)

theorem arrive_rawEvents (s : Store) (m : Moment) :
    ∃ added, (s.arrive m).rawEvents = s.rawEvents ++ added ∧ ∀ r ∈ added, r ∈ m.rawEvents :=
  (foldl_insertRawEvent m.rawEvents s).1

theorem arrive_marketSnapshots (s : Store) (m : Moment) :
    (s.arrive m).marketSnapshots = s.marketSnapshots ++ m.marketSnapshots := by
  show (m.rawEvents.foldl Store.insertRawEvent s).marketSnapshots ++ _ = _
  rw [(foldl_insertRawEvent m.rawEvents s).2]

theorem justified_arrive (s : Store) (m : Moment) : Justified d P s (s.arrive m) := by
  refine .of_subset (fun r hr => ?_) fun r hr => ?_
  · obtain ⟨added, hadded, -⟩ := arrive_rawEvents s m
    rw [hadded]
    exact List.mem_append_left _ hr
  · rw [arrive_marketSnapshots]
    exact List.mem_append_left _ hr

theorem justified_batch (hm : P m.now) (s : Store) : Justified d P s (pruneRawEventsBatch m d s).2 := by
  refine (justified_arrive s m).trans ?_
  unfold pruneRawEventsBatch
  cases m.fault with
  | some e => exact .of_subset (fun _ hr => hr) fun _ hr => hr
  | none =>
    refine ⟨fun r hr hgone => ⟨m.now, hm, expired_of_gone hr hgone⟩, fun r hr hgone => absurd hr hgone⟩

theorem justified_snapshots (hm : P m.now) (s : Store) : Justified d P s (pruneMarketSnapshots m d s).2 := by
  refine (justified_arrive s m).trans ?_
  unfold pruneMarketSnapshots
  cases m.fault with
  | some e => exact .of_subset (fun _ hr => hr) fun _ hr => hr
  | none =>
    refine ⟨fun r hr hgone => absurd hr hgone, fun r hr hgone => ⟨m.now, hm, ?_⟩⟩
    by_contra hfresh
    exact hgone (List.mem_filter.mpr ⟨hr, by simpa using hfresh⟩)

theorem justified_batches (henv : ∀ i, P (env i).now) (batches i : Nat) (total : UInt64) (s : Store) :
    Justified d P s (pruneBatches env d batches i total s).2 := by
  induction batches generalizing i total s with
  | zero => exact .of_subset (fun _ hr => hr) fun _ hr => hr
  | succ batches ih =>
    have hbatch := justified_batch (d := d) (henv i) s
    unfold pruneBatches
    split
    · next e t heq =>
      rw [heq] at hbatch
      exact hbatch
    · next n t heq =>
      rw [heq] at hbatch
      split
      · exact hbatch
      · exact hbatch.trans (ih (i + 1) (total + UInt64.ofNat n) t)

theorem justified_cycle (henv : ∀ i, P (env i).now) (s : Store) : Justified d P s (runCycle env d s).2 := by
  have hbatches := justified_batches (d := d) henv MAX_BATCHES_PER_CYCLE 0 0 s
  unfold runCycle
  split
  · next e t heq =>
    rw [heq] at hbatches
    exact hbatches
  · next total i t heq =>
    rw [heq] at hbatches
    have hmarket := justified_snapshots (d := d) (henv i) t
    split
    · next e u heq' =>
      rw [heq'] at hmarket
      exact hbatches.trans hmarket
    · next n u heq' =>
      rw [heq'] at hmarket
      exact hbatches.trans hmarket

/-! ## Rounds -/

variable {h : MaintenanceState} {c : Cycle} {cycles : List Cycle}

/-- The store after a round is the one after its cycle, with what has arrived since. -/
theorem round_store (s : Store) (h : MaintenanceState) (c : Cycle) :
    (round d (s, h) c).1 = (runCycle c.env d s).2 ∨
      ∃ i, (round d (s, h) c).1 = ((runCycle c.env d s).2).arrive (c.env i) := by
  unfold round runCycleRecording
  split
  · next rows i t heq =>
    refine Or.inr ⟨i, ?_⟩
    simp only [heq]
    unfold oldestRetainedRawEvent
    cases (c.env i).fault <;> rfl
  · next e t heq =>
    rw [heq]
    exact Or.inl rfl

/-- What a run of rounds has deleted had expired when a statement of it ran. -/
theorem rounds_justified (cycles : List Cycle) (s : Store) (h : MaintenanceState) :
    Justified d (fun now => ∃ c ∈ cycles, ∃ i, (c.env i).now = now) s (cycles.foldl (round d) (s, h)).1 := by
  have hrun : ∀ (l : List Cycle) (s : Store) (h : MaintenanceState), (∀ c ∈ l, c ∈ cycles) →
      Justified d (fun now => ∃ c ∈ cycles, ∃ i, (c.env i).now = now) s (l.foldl (round d) (s, h)).1 := by
    intro l
    induction l with
    | nil => exact fun s h _ => .of_subset (fun _ hr => hr) fun _ hr => hr
    | cons c l ih =>
      intro s h hl
      obtain ⟨hc, hrest⟩ := List.forall_mem_cons.mp hl
      have hcycle := justified_cycle (d := d) (P := fun now => ∃ c ∈ cycles, ∃ i, (c.env i).now = now)
        (fun i => ⟨c, hc, i, rfl⟩) s
      have hround : Justified d (fun now => ∃ c ∈ cycles, ∃ i, (c.env i).now = now) s (round d (s, h) c).1 := by
        rcases round_store (d := d) s h c with heq | ⟨i, heq⟩
        · rw [heq]
          exact hcycle
        · rw [heq]
          exact hcycle.trans (justified_arrive _ _)
      exact hround.trans (ih _ _ hrest)
  exact hrun cycles s h fun c hc => hc

theorem effectiveRetentionDays_ok {profile d : Int} {override : Option Int} :
    effectiveRetentionDays profile override = .ok d ↔ d = override.getD profile ∧ 1 ≤ d ∧ d ≤ 3650 := by
  unfold effectiveRetentionDays MIN_RETENTION_DAYS MAX_RETENTION_DAYS
  dsimp only
  generalize override.getD profile = value
  split
  · refine ⟨fun h => absurd h (by simp), ?_⟩
    rintro ⟨rfl, hmin, -⟩
    omega
  · split
    · refine ⟨fun h => absurd h (by simp), ?_⟩
      rintro ⟨rfl, -, hmax⟩
      omega
    · rw [Except.ok.injEq]
      constructor
      · rintro rfl
        exact ⟨rfl, by omega, by omega⟩
      · rintro ⟨rfl, -⟩
        rfl

/-- A retention that is configured is the one that is kept to: over any run of its cycles a row stays as long as
it is not older than that many days, which is at least one, at any statement. -/
theorem retention_keeps {profile : Int} {override : Option Int}
    (hdays : effectiveRetentionDays profile override = .ok d)
    (cycles : List Cycle) (s : Store) (h : MaintenanceState) :
    d = override.getD profile ∧ 1 ≤ d ∧
      (∀ r ∈ s.rawEvents, (∀ c ∈ cycles, ∀ i, (c.env i).now - seconds (d * 86400) ≤ r.observedAt) →
        r ∈ (cycles.foldl (round d) (s, h)).1.rawEvents) ∧
      ∀ r ∈ s.marketSnapshots, (∀ c ∈ cycles, ∀ i, (c.env i).now - seconds (d * 86400) ≤ r.observedAt) →
        r ∈ (cycles.foldl (round d) (s, h)).1.marketSnapshots := by
  obtain ⟨hvalue, hmin, -⟩ := effectiveRetentionDays_ok.mp hdays
  have hjustified := rounds_justified (d := d) cycles s h
  refine ⟨hvalue, hmin, fun r hr hyoung => ?_, fun r hr hyoung => ?_⟩
  · by_contra hgone
    obtain ⟨now, ⟨c, hc, i, rfl⟩, hexpired⟩ := hjustified.rawEvents r hr hgone
    have hold : r.observedAt < (c.env i).now - seconds (d * 86400) := of_decide_eq_true hexpired
    exact absurd hold (Int.not_lt.mpr (hyoung c hc i))
  · by_contra hgone
    obtain ⟨now, ⟨c, hc, i, rfl⟩, hexpired⟩ := hjustified.marketSnapshots r hr hgone
    have hold : r.observedAt < (c.env i).now - seconds (d * 86400) := of_decide_eq_true hexpired
    exact absurd hold (Int.not_lt.mpr (hyoung c hc i))

/-- One old event, and one from the day before. -/
def sampleStore : Store where
  rawEvents := [⟨"solana", "helius", "old", 0⟩, ⟨"solana", "helius", "new", seconds (9 * 86400)⟩]
  marketSnapshots := []
  rawEvents_pk := by decide

/-- A cycle on the tenth day, during which an event of the day arrives. -/
def tenthDay : Cycle where
  env i := ⟨seconds (10 * 86400 + i), none, [⟨"solana", "helius", "arriving", seconds (10 * 86400)⟩], []⟩
  finished := seconds (10 * 86400 + 60)

/-- A cycle whose second batch fails. -/
def failingDay : Cycle where
  env i := ⟨seconds (11 * 86400), if i = 1 then some "connection closed" else none, [], []⟩
  finished := seconds (11 * 86400)

theorem retention_keeps_week : (7 : Int) = (none : Option Int).getD 7 ∧ (1 : Int) ≤ 7 ∧
    (∀ r ∈ sampleStore.rawEvents,
      (∀ c ∈ [failingDay, tenthDay], ∀ i, (c.env i).now - seconds (7 * 86400) ≤ r.observedAt) →
        r ∈ ([failingDay, tenthDay].foldl (round 7) (sampleStore, spawned 0 21600)).1.rawEvents) ∧
    ∀ r ∈ sampleStore.marketSnapshots,
      (∀ c ∈ [failingDay, tenthDay], ∀ i, (c.env i).now - seconds (7 * 86400) ≤ r.observedAt) →
        r ∈ ([failingDay, tenthDay].foldl (round 7) (sampleStore, spawned 0 21600)).1.marketSnapshots :=
  retention_keeps (show effectiveRetentionDays 7 none = .ok 7 by decide) [failingDay, tenthDay] sampleStore
    (spawned 0 21600)

/-! ## The backlog -/

/-- The statements of a cycle meet no error, and nothing arrives that had expired at the time. -/
structure Draining (d : Int) (t₀ : DateTime) (env : Nat → Moment) : Prop where
  fault : ∀ i, (env i).fault = none
  now : ∀ i, t₀ ≤ (env i).now
  fresh : ∀ i, ∀ r ∈ (env i).rawEvents, expiredRaw t₀ d r = false

variable {t₀ : DateTime}

def backlog (d : Int) (t₀ : DateTime) (s : Store) : Nat := s.rawEvents.countP (expiredRaw t₀ d)

theorem backlog_arrive (hfresh : ∀ r ∈ m.rawEvents, expiredRaw t₀ d r = false) :
    backlog d t₀ (s.arrive m) = backlog d t₀ s := by
  obtain ⟨added, hadded, hfrom⟩ := arrive_rawEvents s m
  unfold backlog
  rw [hadded, List.countP_append, Nat.add_eq_left, List.countP_eq_zero]
  intro r hr
  rw [hfresh r (hfrom r hr)]
  exact Bool.false_ne_true

/-- A batch takes its limit off the backlog, and one that finds nothing has none before it. -/
theorem backlog_batch (hfault : m.fault = none) (hnow : t₀ ≤ m.now)
    (hfresh : ∀ r ∈ m.rawEvents, expiredRaw t₀ d r = false) (s : Store) :
    ∃ n t, pruneRawEventsBatch m d s = (.ok n, t) ∧ backlog d t₀ t = backlog d t₀ s - BATCH_LIMIT ∧
      (n = 0 → backlog d t₀ s = 0) := by
  have hexpires : ∀ r ∈ (s.arrive m).rawEvents, r.observedAt < cutoff t₀ d →
      expiredRaw m.now d r = true := by
    intro r _ hr
    have hlater : cutoff t₀ d ≤ cutoff m.now d := Int.sub_le_sub_right hnow _
    exact decide_eq_true (Int.lt_of_lt_of_le hr hlater)
  have hcount : backlog d t₀ { s.arrive m with
      rawEvents := prune (·.observedAt) (expiredRaw m.now d) BATCH_LIMIT (s.arrive m).rawEvents
      rawEvents_pk := (s.arrive m).rawEvents_pk.sublist (prune_sublist.map _) } =
      backlog d t₀ (s.arrive m) - BATCH_LIMIT := count_prune (nodup_of_pk (s.arrive m)) hexpires
  unfold pruneRawEventsBatch
  rw [hfault]
  refine ⟨_, _, rfl, ?_, fun hzero => ?_⟩
  · exact hcount.trans (by rw [backlog_arrive hfresh])
  · rw [length_oldest] at hzero
    have hnone : (s.arrive m).rawEvents.countP (expiredRaw m.now d) = 0 := by
      unfold BATCH_LIMIT at hzero
      omega
    rw [← backlog_arrive hfresh]
    unfold backlog
    rw [List.countP_eq_zero] at hnone ⊢
    intro r hr hold
    exact hnone r hr (hexpires r hr (of_decide_eq_true hold))

/-- The loop takes the limits of all its batches off the backlog. -/
theorem backlog_batches (henv : Draining d t₀ env) (batches i : Nat) (total : UInt64) (s : Store) :
    ∃ r t, pruneBatches env d batches i total s = (.ok r, t) ∧
      backlog d t₀ t = backlog d t₀ s - batches * BATCH_LIMIT := by
  induction batches generalizing i total s with
  | zero => exact ⟨_, _, rfl, by rw [Nat.zero_mul, Nat.sub_zero]⟩
  | succ batches ih =>
    obtain ⟨n, t, hbatch, hcount, hnone⟩ := backlog_batch (henv.fault i) (henv.now i) (henv.fresh i) s
    unfold pruneBatches
    rw [hbatch]
    by_cases hn : n = 0
    · refine ⟨_, t, if_pos hn, ?_⟩
      rw [hcount, hnone hn, Nat.zero_sub, Nat.zero_sub]
    · obtain ⟨r, u, hrest, hcount'⟩ := ih (i + 1) (total + UInt64.ofNat n) t
      refine ⟨r, u, ?_, ?_⟩
      · rw [← hrest]
        exact if_neg hn
      · rw [hcount', hcount, Nat.succ_mul]
        omega

theorem backlog_cycle (henv : Draining d t₀ env) (s : Store) :
    backlog d t₀ (runCycle env d s).2 = backlog d t₀ s - 200000 := by
  obtain ⟨⟨total, i⟩, t, hbatches, hcount⟩ := backlog_batches henv MAX_BATCHES_PER_CYCLE 0 0 s
  unfold runCycle
  rw [hbatches]
  dsimp only
  unfold pruneMarketSnapshots
  rw [henv.fault i]
  show backlog d t₀ (t.arrive (env i)) = _
  rw [backlog_arrive (henv.fresh i), hcount]
  rfl

/-- What has expired before some time is pruned at the rate of two hundred thousand rows a cycle, whatever
arrives and expires after it. -/
theorem backlog_drained (hcycles : ∀ c ∈ cycles, Draining d t₀ c.env) (s : Store) (h : MaintenanceState) :
    backlog d t₀ (cycles.foldl (round d) (s, h)).1 = backlog d t₀ s - cycles.length * 200000 := by
  induction cycles generalizing s h with
  | nil => rw [List.length_nil, Nat.zero_mul, Nat.sub_zero]; rfl
  | cons c cycles ih =>
    obtain ⟨hc, hrest⟩ := List.forall_mem_cons.mp hcycles
    have hround : backlog d t₀ (round d (s, h) c).1 = backlog d t₀ s - 200000 := by
      rcases round_store (d := d) s h c with heq | ⟨i, heq⟩
      · rw [heq, backlog_cycle hc]
      · rw [heq, backlog_arrive (hc.fresh i), backlog_cycle hc]
    rw [List.foldl_cons, ih hrest, hround, List.length_cons, Nat.succ_mul]
    omega

theorem backlog_drained_week :
    backlog 7 (seconds (10 * 86400)) ([tenthDay, tenthDay].foldl (round 7) (sampleStore, spawned 0 21600)).1 =
      backlog 7 (seconds (10 * 86400)) sampleStore - [tenthDay, tenthDay].length * 200000 := by
  refine backlog_drained (fun c hc => ?_) sampleStore (spawned 0 21600)
  have htenth : c = tenthDay := by simpa using hc
  rw [htenth]
  refine ⟨fun _ => rfl, fun i => ?_, fun i r hr => ?_⟩
  · show seconds (10 * 86400) ≤ seconds (10 * 86400 + i)
    unfold seconds
    omega
  · rw [List.mem_singleton.mp hr]
    decide

/-! ## Health -/

/-- The answers of the cycles of a run. -/
def outcomes (d : Int) : Store × MaintenanceState → List Cycle → List (Cycle × Except String UInt64)
  | _, [] => []
  | x, c :: cycles => (c, (runCycleRecording d c x.1 x.2).1) :: outcomes d (round d x c) cycles

def succeeded (d : Int) (x : Store × MaintenanceState) (cycles : List Cycle) : List (Cycle × UInt64) :=
  (outcomes d x cycles).filterMap fun o => o.2.toOption.map fun rows => (o.1, rows)

/-- What a cycle records of itself. -/
theorem round_records (d : Int) (c : Cycle) (x : Store × MaintenanceState) :
    (∃ rows oldest, (runCycleRecording d c x.1 x.2).1 = .ok rows ∧
      (round d x c).2 = x.2.recordSuccess c.finished rows oldest) ∨
    ∃ e, (runCycleRecording d c x.1 x.2).1 = .error e ∧ (round d x c).2 = x.2.recordError c.finished e := by
  unfold round runCycleRecording
  cases runCycle c.env d x.1 with
  | mk r t =>
    cases r with
    | error e => exact Or.inr ⟨e, rfl, rfl⟩
    | ok rows => exact Or.inl ⟨rows.1, _, rfl, rfl⟩

/-- The totals and the last success that a run leaves are those of its successful cycles. -/
theorem rounds_record (d : Int) (cycles : List Cycle) (x : Store × MaintenanceState) :
    (cycles.foldl (round d) x).2.rowsPrunedTotal =
        x.2.rowsPrunedTotal + ((succeeded d x cycles).map (·.2)).sum ∧
      (cycles.foldl (round d) x).2.lastSuccessUnix =
        ((succeeded d x cycles).getLast?.map fun o => timestamp o.1.finished).getD x.2.lastSuccessUnix ∧
      (cycles.foldl (round d) x).2.startedAtUnix = x.2.startedAtUnix ∧
      (cycles.foldl (round d) x).2.intervalSecs = x.2.intervalSecs ∧
      (cycles.foldl (round d) x).2.started = x.2.started := by
  induction cycles generalizing x with
  | nil => simp [succeeded, outcomes]
  | cons c cycles ih =>
    obtain ⟨htotal, hlast, hstart, hinterval, hon⟩ := ih (round d x c)
    rw [List.foldl_cons]
    rcases round_records d c x with ⟨rows, oldest, hok, hrecord⟩ | ⟨e, herror, hrecord⟩
    · have hsucceeded : succeeded d x (c :: cycles) = (c, rows) :: succeeded d (round d x c) cycles := by
        simp [succeeded, outcomes, hok, Except.toOption]
      rw [hsucceeded]
      rw [hrecord] at htotal hlast hstart hinterval hon
      refine ⟨?_, ?_, hstart, hinterval, hon⟩
      · rw [List.map_cons, List.sum_cons, ← UInt64.add_assoc]
        exact htotal
      · rw [List.getLast?_cons]
        refine hlast.trans ?_
        cases (succeeded d (round d x c) cycles).getLast? <;> rfl
    · have hsucceeded : succeeded d x (c :: cycles) = succeeded d (round d x c) cycles := by
        simp [succeeded, outcomes, herror, Except.toOption]
      rw [hsucceeded]
      rw [hrecord] at htotal hlast hstart hinterval hon
      exact ⟨htotal, hlast, hstart, hinterval, hon⟩

theorem unixToDt_pos {n : Int} (hn : 0 < n) : unixToDt n = some (seconds n) := if_neg (by omega)

/-- A sum that wraps is the sum up to a multiple of 2^64. -/
theorem toNat_sum (rows : List UInt64) : rows.sum.toNat = (rows.map UInt64.toNat).sum % 2 ^ 64 := by
  induction rows with
  | nil => rfl
  | cons n rows ih => rw [List.sum_cons, UInt64.toNat_add, ih, List.map_cons, List.sum_cons, Nat.add_mod_mod]

section Interval
variable {interval : UInt64} (hrange : interval.toNat * 2 < 2 ^ 63)
include hrange

/-- The cast keeps an interval that the `i64` holds twice. -/
theorem toInt_interval : interval.toInt64.toInt = interval.toNat := by
  show interval.toBitVec.toInt = _
  refine BitVec.toInt_eq_toNat_of_lt ?_
  show 2 * interval.toNat < 2 ^ 64
  omega

theorem toInt_twice : (interval.toInt64 * 2).toInt = interval.toNat * 2 := by
  rw [Int64.toInt_mul, toInt_interval hrange]
  show (_ * 2 : Int).bmod _ = _
  apply Int.bmod_eq_of_le_mul_two <;> omega

theorem interval_pos (hinterval : 0 < interval) : ¬ interval.toInt64 ≤ 0 := by
  rw [Int64.le_iff_toInt_le, toInt_interval hrange]
  have hpos : 0 < interval.toNat := UInt64.lt_iff_toNat_lt.mp hinterval
  show ¬ (_ : Int) ≤ 0
  omega

end Interval

/-- A task that is on is stale when the last time that it goes by is more than two intervals ago. -/
theorem isStale_eq {last : DateTime} (hon : h.started = true) (hinterval : ¬ h.intervalSecs ≤ 0)
    (hlast : h.lastSuccess = some last ∨ (h.lastSuccess = none ∧ h.startedAt = some last)) (now : DateTime) :
    h.isStale now = decide ((h.intervalSecs * 2).toInt < numSeconds (now - last)) := by
  unfold MaintenanceState.isStale
  rw [hon, if_neg (by decide), if_neg hinterval]
  rcases hlast with hsuccess | ⟨hnone, hstart⟩
  · rw [hsuccess]
  · rw [hnone, hstart]

theorem mem_of_succeeded {d : Int} {x : Store × MaintenanceState} {o : Cycle × UInt64} (h : o ∈ succeeded d x cycles) :
    o.1 ∈ cycles := by
  induction cycles generalizing x with
  | nil => simp [succeeded, outcomes] at h
  | cons c cycles ih =>
    obtain ⟨p, hp, hpo⟩ := List.mem_filterMap.mp h
    rcases List.mem_cons.mp hp with rfl | hp
    · obtain ⟨rows, -, rfl⟩ := Option.map_eq_some_iff.mp hpo
      exact List.mem_cons_self
    · exact List.mem_cons_of_mem _ (ih (List.mem_filterMap.mpr ⟨p, hp, hpo⟩))

/-- The task is stale when its last success is more than two intervals ago, or its start while it has had none;
failures do not put it off, nor do they add to what has been pruned. -/
theorem rounds_health (d : Int) (cycles : List Cycle) (s : Store) {start : DateTime} {interval : UInt64}
    (hinterval : 0 < interval) (hrange : interval.toNat * 2 < 2 ^ 63) (hstart : 0 < timestamp start)
    (hfinished : ∀ c ∈ cycles, 0 < timestamp c.finished) (now : DateTime) :
    (cycles.foldl (round d) (s, spawned start interval)).2.rowsPrunedTotal.toNat =
        ((succeeded d (s, spawned start interval) cycles).map (·.2.toNat)).sum % 2 ^ 64 ∧
      ((cycles.foldl (round d) (s, spawned start interval)).2.isStale now = true ↔
        (interval.toNat : Int) * 2 < numSeconds (now - seconds (timestamp
          (((succeeded d (s, spawned start interval) cycles).getLast?.map (·.1.finished)).getD start)))) := by
  obtain ⟨htotal, hlast, hbegun, hevery, hon⟩ := rounds_record d cycles (s, spawned start interval)
  have hevery' : (cycles.foldl (round d) (s, spawned start interval)).2.intervalSecs = interval.toInt64 := hevery
  refine ⟨?_, ?_⟩
  · have hzero : (spawned start interval).rowsPrunedTotal = 0 := rfl
    rw [htotal, hzero, UInt64.zero_add, toNat_sum, List.map_map]
    rfl
  · rw [isStale_eq hon (by rw [hevery']; exact interval_pos hrange hinterval) ?_ now, hevery', toInt_twice hrange,
      decide_eq_true_eq]
    cases hoks : (succeeded d (s, spawned start interval) cycles).getLast? with
    | none =>
      refine Or.inr ⟨?_, ?_⟩
      · rw [MaintenanceState.lastSuccess, hlast, hoks]
        rfl
      · rw [MaintenanceState.startedAt, hbegun]
        exact unixToDt_pos hstart
    | some o =>
      have ho := hfinished o.1 (mem_of_succeeded (List.mem_of_getLast? hoks))
      refine Or.inl ?_
      rw [MaintenanceState.lastSuccess, hlast, hoks]
      exact unixToDt_pos ho

theorem rounds_health_week :
    ([tenthDay, failingDay].foldl (round 7) (sampleStore, spawned (seconds 60) 21600)).2.rowsPrunedTotal.toNat =
        ((succeeded 7 (sampleStore, spawned (seconds 60) 21600) [tenthDay, failingDay]).map (·.2.toNat)).sum %
          2 ^ 64 ∧
      (([tenthDay, failingDay].foldl (round 7) (sampleStore, spawned (seconds 60) 21600)).2.isStale
          (seconds (11 * 86400)) = true ↔
        ((21600 : UInt64).toNat : Int) * 2 < numSeconds (seconds (11 * 86400) - seconds (timestamp
          (((succeeded 7 (sampleStore, spawned (seconds 60) 21600) [tenthDay, failingDay]).getLast?.map
            (·.1.finished)).getD (seconds 60))))) := by
  refine rounds_health 7 [tenthDay, failingDay] sampleStore (by decide) (by decide) (by decide) (fun c hc => ?_)
    (seconds (11 * 86400))
  rcases List.mem_pair.mp hc with rfl | rfl <;> decide

end

end WhaleIntelligence.Maintenance
