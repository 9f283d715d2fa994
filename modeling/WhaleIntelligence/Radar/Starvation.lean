import WhaleIntelligence.Admin.Reads
import WhaleIntelligence.Lib.Backlog

/- The cases that `evaluate_radar_cases` comes to.

   A pass goes through the hundred open cases that were updated least recently. The
   evaluation of a case that goes on waiting writes nothing, so the case keeps its place
   and takes it from the others in the next pass. Whether all open cases have been
   evaluated after as many passes as batches are needed for them depends on the number
   of verdicts to wait (`evaluateRadarCases_covers_iff`). What becomes of an alert is
   not modelled, since the outbox has no part in the tables of the cases. -/
namespace WhaleIntelligence.Radar
open WhaleIntelligence Query Backlog

/-- A pass by its clock, and what the clock of the database reads while the case of the id
is evaluated. -/
structure Pass where
  now : DateTime
  dbNow : Int → DateTime

def batchSize : Nat := 100

def isOpenOf (workspaceId : Int) (c : CaseRow) : Bool := Admin.isOpen c && c.workspaceId == workspaceId

/-- The open cases of the workspace, the one that was updated least recently first. -/
def openCases (db : RadarDb) (workspaceId : Int) : List CaseRow :=
  Admin.oldestOf (·.updatedAt) (db.cases.filter (isOpenOf workspaceId))

def batch (db : RadarDb) (workspaceId : Int) : List CaseRow := (openCases db workspaceId).take batchSize

/-- The columns that the pass selects. -/
def CaseRow.selected (c : CaseRow) : Int × String × String := (c.id, c.chain, c.recipient)

theorem batch_selected (db : Admin.Database) (workspaceId : Int64) :
    Admin.openRadarCases db workspaceId = (batch db.toRadarDb workspaceId.toInt).map CaseRow.selected := rfl

/-- The loop of `evaluate_radar_cases`, with the decisions it gets. -/
def evaluateEach (workspaceId : Int) (config : FundingRadarConfig) (pass : Pass) :
    RadarDb → List (Int × String × String) → RadarDb × List FundingRadarDecision
  | db, [] => (db, [])
  | db, (id, chainStr, recipient) :: rest =>
    let chain := (ChainKind.parse chainStr).getD .solana
    let evaluated := evaluateRadarCase { db with dbNow := pass.dbNow id } workspaceId chain recipient pass.now config
    let others := evaluateEach workspaceId config pass evaluated.1 rest
    (others.1, evaluated.2 :: others.2)

/-- `evaluate_radar_cases`: the cases after the pass, and how many were evaluated. -/
def evaluateRadarCases (workspaceId : Int) (config : FundingRadarConfig) (db : RadarDb) (pass : Pass) : RadarDb × Nat :=
  let evaluated := evaluateEach workspaceId config pass db ((batch db workspaceId).map CaseRow.selected)
  (evaluated.1, evaluated.2.length)

/-- The cases after consecutive passes. -/
def afterPasses (workspaceId : Int) (config : FundingRadarConfig) (db : RadarDb) (passes : List Pass) : RadarDb :=
  passes.foldl (fun db pass => (evaluateRadarCases workspaceId config db pass).1) db

/-- The ids of the cases that consecutive passes hand to `evaluate_radar_case`. -/
def passedTo (workspaceId : Int) (config : FundingRadarConfig) : RadarDb → List Pass → List Int
  | _, [] => []
  | db, pass :: passes => (batch db workspaceId).map (·.id) ++
    passedTo workspaceId config (evaluateRadarCases workspaceId config db pass).1 passes

/-- The verdict on the case of the row. -/
def CaseRow.verdict (c : CaseRow) (events : List CaseEvent) (config : FundingRadarConfig) (pass : Pass) : Verdict :=
  (c.read ((ChainKind.parse c.chain).getD .solana)).verdict events pass.now config

def Verdict.waits : Verdict → Bool
  | .wait _ => true
  | _ => false

/-- The case of the row goes on waiting. -/
def CaseRow.waits (c : CaseRow) (events : List CaseEvent) (config : FundingRadarConfig) (pass : Pass) : Bool :=
  (c.verdict events config pass).waits

/-- The cases of the batch that the pass leaves waiting. -/
def waiting (workspaceId : Int) (config : FundingRadarConfig) (db : RadarDb) (pass : Pass) : Nat :=
  ((batch db workspaceId).filter (CaseRow.waits · db.events config pass)).length

/-- The verdicts to wait in consecutive passes. -/
def waits (workspaceId : Int) (config : FundingRadarConfig) : RadarDb → List Pass → Nat
  | _, [] => 0
  | db, pass :: passes => waiting workspaceId config db pass +
    waits workspaceId config (evaluateRadarCases workspaceId config db pass).1 passes

/-- Passes that begin at `start` over cases that were written before: their chains are the
names of chains, and they were updated at different times. -/
structure Begins (db : RadarDb) (workspaceId : Int) (start : DateTime) (passes : List Pass) : Prop where
  chains : ∀ c ∈ db.cases, ∃ chain : ChainKind, c.chain = chain.asStr
  times : ((openCases db workspaceId).map (·.updatedAt)).Nodup
  before : ∀ c ∈ openCases db workspaceId, c.updatedAt ≤ start
  later : ∀ pass ∈ passes, ∀ id, start < pass.dbNow id

/-- Every case that is open at the beginning has been evaluated or is open no more. -/
def Covers (workspaceId : Int) (config : FundingRadarConfig) (db : RadarDb) (passes : List Pass) : Prop :=
  ∀ c ∈ openCases db workspaceId, c.id ∈ passedTo workspaceId config db passes ∨
    c.id ∉ (openCases (afterPasses workspaceId config db passes) workspaceId).map (·.id)

/-! ## What a pass writes -/

/-- The row of a case after its verdict. -/
def Verdict.row (v : Verdict) (dbNow : DateTime) (c : CaseRow) : CaseRow :=
  match v with
  | .dismiss => (dismissal expiredReason dbNow).apply c
  | .deploy _ => (stageChange .deployed (asI32 85) none dbNow).apply c
  | .promote _ confidence => (stageChange .preparation (asI32 confidence) none dbNow).apply c
  | .terminal | .wait _ => c

/-- The row after the pass, where the pass comes to the case. -/
def CaseRow.evaluated (events : List CaseEvent) (config : FundingRadarConfig) (pass : Pass) (c : CaseRow) : CaseRow :=
  (c.verdict events config pass).row (pass.dbNow c.id) c

/-- The row after a pass that comes to the cases of the ids. -/
def passOver (events : List CaseEvent) (config : FundingRadarConfig) (pass : Pass) (ids : List Int) (c : CaseRow) :
    CaseRow := if c.id ∈ ids then c.evaluated events config pass else c

section
variable {db : RadarDb} {workspaceId : Int} {config : FundingRadarConfig} {pass : Pass} {passes : List Pass}
variable {start : DateTime} {c : CaseRow} {rows : List CaseRow} {events : List CaseEvent} {ids : List Int}

theorem row_id (v : Verdict) (dbNow : DateTime) (c : CaseRow) : (v.row dbNow c).id = c.id := by cases v <;> rfl

theorem evaluated_id : (c.evaluated events config pass).id = c.id := row_id _ _ _

theorem passOver_mem (h : c.id ∈ ids) : passOver events config pass ids c = c.evaluated events config pass := if_pos h

theorem passOver_not_mem (h : c.id ∉ ids) : passOver events config pass ids c = c := if_neg h

theorem passOver_chain : (passOver events config pass ids c).chain = c.chain := by
  by_cases h : c.id ∈ ids
  · rw [passOver_mem h, CaseRow.evaluated]
    cases c.verdict events config pass <;> rfl
  · rw [passOver_not_mem h]

theorem write_cases (v : Verdict) (db : RadarDb) (id : Int) :
    (v.write db id).cases = db.cases.map fun c => if c.id = id then v.row db.dbNow c else c := by
  have hsame : db.cases = db.cases.map fun c => if c.id = id then c else c := by simp
  cases v with
  | terminal => exact hsame
  | wait kinds => exact hsame
  | dismiss => rfl
  | deploy kinds => rfl
  | promote kinds confidence => rfl

/-- The case of a row is fetched under the keys of the row. -/
theorem fetchCase_row {chain : ChainKind} (hc : c ∈ db.cases) (hchain : c.chain = chain.asStr) :
    fetchCase db c.workspaceId chain c.recipient = some (c.read chain) := by
  have hkey : c.key = (c.workspaceId, chain.asStr, c.recipient) := by rw [CaseRow.key, hchain]
  have hrow : caseRow db c.workspaceId chain c.recipient = some c := by
    cases hfind : caseRow db c.workspaceId chain c.recipient with
    | none =>
      rw [caseRow, List.find?_eq_none] at hfind
      exact absurd (beq_iff_eq.mpr hkey) (hfind c hc)
    | some d =>
      obtain ⟨hd, hdkey⟩ := caseRow_mem hfind
      rw [List.inj_on_of_nodup_map db.keys_nodup hd hc (hdkey.trans hkey.symm)]
  rw [fetchCase, hrow, Option.map_some]

/-- An evaluation under the keys of a row writes that row. -/
theorem evaluateRadarCase_row (config : FundingRadarConfig) (pass : Pass) {chain : ChainKind} (hc : c ∈ db.cases)
    (hchain : c.chain = chain.asStr) :
    (evaluateRadarCase { db with dbNow := pass.dbNow c.id } c.workspaceId chain c.recipient pass.now config).1.cases =
        db.cases.map (passOver db.events config pass [c.id]) ∧
      (evaluateRadarCase { db with dbNow := pass.dbNow c.id } c.workspaceId chain c.recipient pass.now
        config).1.events =
        db.events := by
  have hfetch : fetchCase { db with dbNow := pass.dbNow c.id } c.workspaceId chain c.recipient = some (c.read chain) :=
    fetchCase_row hc hchain
  have hverdict : c.verdict db.events config pass = (c.read chain).verdict db.events pass.now config := by
    rw [CaseRow.verdict, hchain, ChainKind.parse_asStr, Option.getD_some]
  rw [evaluateRadarCase, hfetch]
  refine ⟨?_, write_frame.2.2⟩
  show (Verdict.write _ _ (c.read chain).id).cases = _
  rw [write_cases, read_id]
  refine List.map_congr_left fun d hd => ?_
  by_cases hid : d.id = c.id
  · obtain rfl := List.inj_on_of_nodup_map db.ids_nodup hd hc hid
    rw [if_pos rfl, passOver_mem (List.mem_singleton_self _), CaseRow.evaluated, hverdict]
  · rw [if_neg hid, passOver_not_mem (by simpa using hid)]

/-- A pass over rows writes these rows, each as its verdict says. -/
theorem evaluateEach_rows (hmem : ∀ c ∈ rows, c ∈ db.cases) (hworkspace : ∀ c ∈ rows, c.workspaceId = workspaceId)
    (hchains : ∀ c ∈ rows, ∃ chain : ChainKind, c.chain = chain.asStr) (hids : (rows.map (·.id)).Nodup) :
    (evaluateEach workspaceId config pass db (rows.map CaseRow.selected)).1.cases =
        db.cases.map (passOver db.events config pass (rows.map (·.id))) ∧
      (evaluateEach workspaceId config pass db (rows.map CaseRow.selected)).1.events = db.events := by
  induction rows generalizing db with
  | nil =>
    refine ⟨?_, rfl⟩
    show db.cases = db.cases.map fun c => c
    rw [List.map_id']
  | cons c rows ih =>
    obtain ⟨hfresh, hids⟩ := List.nodup_cons.mp hids
    obtain ⟨chain, hchain⟩ := hchains c List.mem_cons_self
    obtain rfl := hworkspace c List.mem_cons_self
    obtain ⟨hcases, hevents⟩ := evaluateRadarCase_row config pass
      (hmem c List.mem_cons_self) hchain
    rw [List.map_cons, CaseRow.selected, evaluateEach]
    simp only [hchain, ChainKind.parse_asStr, Option.getD_some]
    have hleft : ∀ d ∈ rows, d ∈ (evaluateRadarCase { db with dbNow := pass.dbNow c.id } c.workspaceId chain c.recipient
        pass.now config).1.cases := by
      intro d hd
      have hne : d.id ≠ c.id := fun hid => hfresh (List.mem_map.mpr ⟨d, hd, hid⟩)
      rw [hcases, List.mem_map]
      exact ⟨d, hmem d (List.mem_cons_of_mem _ hd), passOver_not_mem (by simpa using hne)⟩
    obtain ⟨hrest, hrestEvents⟩ := ih hleft (fun d hd => hworkspace d (List.mem_cons_of_mem _ hd))
      (fun d hd => hchains d (List.mem_cons_of_mem _ hd)) hids
    refine ⟨?_, hrestEvents.trans hevents⟩
    rw [hrest, hcases, hevents, List.map_map]
    refine List.map_congr_left fun d _ => ?_
    rw [Function.comp_apply]
    by_cases hid : d.id = c.id
    · have hdone : passOver db.events config pass [c.id] d = d.evaluated db.events config pass :=
        passOver_mem (by simpa using hid)
      rw [hdone, passOver_not_mem (by rw [evaluated_id, hid]; exact hfresh),
        passOver_mem (by rw [hid]; exact List.mem_cons_self)]
    · have hsame : passOver db.events config pass [c.id] d = d := passOver_not_mem (by simpa using hid)
      rw [hsame, passOver, passOver]
      simp only [List.map_cons, List.mem_cons, hid, false_or]

/-! ## The line of the open cases -/

theorem mem_openCases : c ∈ openCases db workspaceId ↔ c ∈ db.cases ∧ isOpenOf workspaceId c = true := by
  rw [openCases, Admin.oldestOf, List.mem_insertionSort, List.mem_filter]

theorem openCases_perm : (openCases db workspaceId).Perm (db.cases.filter (isOpenOf workspaceId)) :=
  List.perm_insertionSort _ _

theorem openCases_sorted : (openCases db workspaceId).Pairwise fun c d => c.updatedAt ≤ d.updatedAt :=
  sorted_oldest _ _

theorem openCases_ids : ((openCases db workspaceId).map (·.id)).Nodup := by
  have hids : ((db.cases.filter (isOpenOf workspaceId)).map (·.id)).Nodup :=
    db.ids_nodup.sublist (List.filter_sublist.map _)
  exact (openCases_perm.map _).nodup_iff.mpr hids

/-- The open cases that have not been written since the start. -/
def unmoved (db : RadarDb) (workspaceId : Int) (start : DateTime) : List CaseRow :=
  (openCases db workspaceId).filter fun c => c.updatedAt ≤ start

def moved (db : RadarDb) (workspaceId : Int) (start : DateTime) : List CaseRow :=
  (openCases db workspaceId).filter fun c => !decide (c.updatedAt ≤ start)

theorem openCases_eq (db : RadarDb) (workspaceId : Int) (start : DateTime) :
    openCases db workspaceId = unmoved db workspaceId start ++ moved db workspaceId start :=
  sorted_split openCases_sorted start

/-- The state between two passes. -/
structure Underway (db : RadarDb) (workspaceId : Int) (start : DateTime) : Prop where
  chains : ∀ c ∈ db.cases, ∃ chain : ChainKind, c.chain = chain.asStr
  times : (unmoved db workspaceId start).Pairwise fun c d => c.updatedAt < d.updatedAt

theorem Begins.underway (h : Begins db workspaceId start passes) : Underway db workspaceId start := by
  refine ⟨h.chains, List.Pairwise.filter _ ?_⟩
  have hne : (openCases db workspaceId).Pairwise fun c d => c.updatedAt ≠ d.updatedAt := List.pairwise_map.mp h.times
  exact (openCases_sorted.and hne).imp fun hle => lt_of_le_of_ne hle.1 hle.2

/-- The verdict on an open case is one of the others. -/
theorem verdict_ne_terminal (hopen : isOpenOf workspaceId c = true) : c.verdict events config pass ≠ .terminal := by
  simp only [isOpenOf, Admin.isOpen, Bool.and_eq_true, bne_iff_ne] at hopen
  have hstage : ∀ chain, ¬((c.read chain).stage = .dismissed ∨ (c.read chain).stage = .deployed) :=
    fun _ => not_or.mpr hopen.1
  rw [CaseRow.verdict, FundingRadarCase.verdict, FundingRadarCase.settled, if_neg (hstage _)]
  split
  · simp
  · rw [Option.getD_none, FundingRadarCase.weigh]
    split
    · simp
    · split <;> simp

/-- A pass leaves an open case where it is exactly when the case goes on waiting. -/
theorem evaluated_unmoved (hopen : isOpenOf workspaceId c = true) (hbefore : c.updatedAt ≤ start)
    (hlater : start < pass.dbNow c.id) :
    ((isOpenOf workspaceId (c.evaluated events config pass) = true ∧
      (c.evaluated events config pass).updatedAt ≤ start) ↔ c.waits events config pass = true) ∧
    (c.waits events config pass = true → c.evaluated events config pass = c) := by
  rw [CaseRow.waits, CaseRow.evaluated]
  cases hv : c.verdict events config pass with
  | terminal => exact absurd hv (verdict_ne_terminal hopen)
  | wait kinds => exact ⟨⟨fun _ => rfl, fun _ => ⟨hopen, hbefore⟩⟩, fun _ => rfl⟩
  | dismiss => simp [Verdict.waits, Verdict.row, dismissal, isOpenOf, Admin.isOpen]
  | deploy kinds => simp [Verdict.waits, Verdict.row, stageChange, isOpenOf, Admin.isOpen]
  | promote kinds confidence => simp [Verdict.waits, Verdict.row, stageChange, hlater]

theorem isOpenOf_workspace (h : isOpenOf workspaceId c = true) : c.workspaceId = workspaceId := by
  simp only [isOpenOf, Bool.and_eq_true, beq_iff_eq] at h
  exact h.2

/-- The ids that a pass comes to. -/
def batchIds (db : RadarDb) (workspaceId : Int) : List Int := (batch db workspaceId).map (·.id)

theorem mem_batchIds (hc : c ∈ openCases db workspaceId) :
    c.id ∈ batchIds db workspaceId ↔ c ∈ batch db workspaceId := by
  refine ⟨fun h => ?_, fun h => List.mem_map_of_mem h⟩
  obtain ⟨d, hd, hid⟩ := List.mem_map.mp h
  rwa [← List.inj_on_of_nodup_map openCases_ids (List.mem_of_mem_take hd) hc hid]

theorem evaluateRadarCases_cases (config : FundingRadarConfig) (pass : Pass) (h : Underway db workspaceId start) :
    (evaluateRadarCases workspaceId config db pass).1.cases =
        db.cases.map (passOver db.events config pass (batchIds db workspaceId)) ∧
      (evaluateRadarCases workspaceId config db pass).1.events = db.events := by
  have hopen : ∀ c ∈ batch db workspaceId, c ∈ openCases db workspaceId := fun c hc => List.mem_of_mem_take hc
  have hmem : ∀ c ∈ batch db workspaceId, c ∈ db.cases := fun c hc => (mem_openCases.mp (hopen c hc)).1
  refine evaluateEach_rows hmem (fun c hc => ?_) (fun c hc => h.chains c (hmem c hc)) ?_
  · exact isOpenOf_workspace (mem_openCases.mp (hopen c hc)).2
  · exact openCases_ids.sublist ((List.take_sublist _ _).map _)

/-- The case is not written by the pass: the pass does not come to it, or it goes on waiting. -/
def keeps (db : RadarDb) (workspaceId : Int) (config : FundingRadarConfig) (pass : Pass) (c : CaseRow) : Bool :=
  !(batchIds db workspaceId).contains c.id || c.waits db.events config pass

theorem passOver_of_keeps (hopen : isOpenOf workspaceId c = true) (hbefore : c.updatedAt ≤ start)
    (hlater : start < pass.dbNow c.id) (h : keeps db workspaceId config pass c = true) :
    passOver db.events config pass (batchIds db workspaceId) c = c := by
  by_cases hid : c.id ∈ batchIds db workspaceId
  · rw [keeps, List.contains_iff_mem.mpr hid] at h
    rw [passOver_mem hid]
    exact (evaluated_unmoved hopen hbefore hlater).2 h
  · rw [passOver_not_mem hid]

theorem evaluated_later (events : List CaseEvent) (config : FundingRadarConfig) (h : start < c.updatedAt)
    (hlater : start < pass.dbNow c.id) :
    start < (c.evaluated events config pass).updatedAt := by
  rw [CaseRow.evaluated]
  cases c.verdict events config pass with
  | terminal => exact h
  | wait kinds => exact h
  | dismiss => exact hlater
  | deploy kinds => exact hlater
  | promote kinds confidence => exact hlater

/-- The rows that are open and unmoved after a pass are those that it keeps. -/
theorem passOver_unmoved_iff (workspaceId : Int) (config : FundingRadarConfig) (hc : c ∈ db.cases)
    (hlater : start < pass.dbNow c.id) :
    (isOpenOf workspaceId (passOver db.events config pass (batchIds db workspaceId) c) = true ∧
      (passOver db.events config pass (batchIds db workspaceId) c).updatedAt ≤ start) ↔
    (isOpenOf workspaceId c = true ∧ c.updatedAt ≤ start) ∧ keeps db workspaceId config pass c = true := by
  rw [keeps]
  by_cases hid : c.id ∈ batchIds db workspaceId
  · obtain ⟨d, hd, hdid⟩ := List.mem_map.mp hid
    have hdopen := mem_openCases.mp (List.mem_of_mem_take hd)
    obtain rfl := List.inj_on_of_nodup_map db.ids_nodup hdopen.1 hc hdid
    rw [passOver_mem hid, List.contains_iff_mem.mpr hid, Bool.not_true, Bool.false_or]
    rcases le_or_gt d.updatedAt start with hbefore | hafter
    · rw [(evaluated_unmoved hdopen.2 hbefore hlater).1]
      simp [hdopen.2, hbefore]
    · have hmoved := evaluated_later db.events config hafter hlater
      simp [not_le.mpr hafter, not_le.mpr hmoved]
  · rw [passOver_not_mem hid]
    simp [hid]

/-- The unmoved cases that a pass comes to are those in front. -/
theorem mem_batch_iff (hc : c ∈ unmoved db workspaceId start) :
    c ∈ batch db workspaceId ↔ c ∈ (unmoved db workspaceId start).take batchSize := by
  have hnodup : (openCases db workspaceId).Nodup := openCases_ids.of_map
  rw [openCases_eq db workspaceId start] at hnodup
  rw [batch, openCases_eq db workspaceId start, List.take_append, List.mem_append]
  refine or_iff_left fun hbehind => ?_
  exact List.disjoint_of_nodup_append hnodup hc (List.mem_of_mem_take hbehind)

/-- Those that a pass keeps: the cases of its batch that go on waiting, and what it did not come to. -/
theorem unmoved_keeps (start : DateTime) :
    (unmoved db workspaceId start).filter (keeps db workspaceId config pass) =
      ((unmoved db workspaceId start).take batchSize).filter (CaseRow.waits · db.events config pass) ++
        (unmoved db workspaceId start).drop batchSize := by
  have hnodup : (unmoved db workspaceId start).Nodup := openCases_ids.of_map.filter _
  rw [front_append_rest hnodup]
  refine List.filter_congr fun c hc => ?_
  have hid : (batchIds db workspaceId).contains c.id = true ↔ c ∈ (unmoved db workspaceId start).take batchSize := by
    rw [List.contains_iff_mem, mem_batchIds (List.mem_of_mem_filter hc), mem_batch_iff hc]
  rw [keeps, Bool.not_and, Bool.not_not, Bool.eq_iff_iff.mpr (hid.trans (decide_eq_true_iff).symm)]

def isUnmoved (workspaceId : Int) (start : DateTime) (c : CaseRow) : Bool :=
  decide (c.updatedAt ≤ start) && isOpenOf workspaceId c

theorem unmoved_perm : (unmoved db workspaceId start).Perm (db.cases.filter (isUnmoved workspaceId start)) := by
  have hfilter : db.cases.filter (isUnmoved workspaceId start) =
      (db.cases.filter (isOpenOf workspaceId)).filter fun c => c.updatedAt ≤ start := by
    rw [List.filter_filter]
    rfl
  rw [hfilter]
  exact openCases_perm.filter _

/-- The rows that are unmoved after a pass are the ones before it that it keeps. -/
theorem passOver_unmoved (hlater : ∀ id, start < pass.dbNow id) :
    (db.cases.map (passOver db.events config pass (batchIds db workspaceId))).filter (isUnmoved workspaceId start) =
      (db.cases.filter (isUnmoved workspaceId start)).filter (keeps db workspaceId config pass) := by
  have hrow : ∀ c ∈ db.cases, (isUnmoved workspaceId start ∘
      passOver db.events config pass (batchIds db workspaceId)) c =
        (keeps db workspaceId config pass c && isUnmoved workspaceId start c) := by
    intro c hc
    have hiff := passOver_unmoved_iff workspaceId config hc (hlater c.id)
    rw [Function.comp_apply, Bool.eq_iff_iff]
    simp only [isUnmoved, Bool.and_eq_true, decide_eq_true_eq]
    tauto
  rw [List.filter_map, List.filter_filter, List.filter_congr hrow]
  refine (List.map_congr_left fun c hc => ?_).trans (List.map_id' _)
  simp only [List.mem_filter, isUnmoved, Bool.and_eq_true, decide_eq_true_eq] at hc
  exact passOver_of_keeps hc.2.2.2 hc.2.2.1 (hlater c.id) hc.2.1

/-- What a pass leaves unmoved. -/
theorem unmoved_after (h : Underway db workspaceId start) (hlater : ∀ id, start < pass.dbNow id) :
    unmoved (evaluateRadarCases workspaceId config db pass).1 workspaceId start =
      ((unmoved db workspaceId start).take batchSize).filter (CaseRow.waits · db.events config pass) ++
        (unmoved db workspaceId start).drop batchSize := by
  -- both are in the order of times, and no two rows share one
  rw [← unmoved_keeps]
  refine sorted_eq (openCases_sorted.filter _) (h.times.filter _) (unmoved_perm.trans ?_)
  rw [(evaluateRadarCases_cases config pass h).1, passOver_unmoved hlater]
  exact (unmoved_perm.symm.filter _)

/-- The state after a pass is one between two passes. -/
theorem Underway.after (config : FundingRadarConfig) (h : Underway db workspaceId start)
    (hlater : ∀ id, start < pass.dbNow id) :
    Underway (evaluateRadarCases workspaceId config db pass).1 workspaceId start := by
  refine ⟨fun c hc => ?_, ?_⟩
  · rw [(evaluateRadarCases_cases config pass h).1] at hc
    obtain ⟨d, hd, rfl⟩ := List.mem_map.mp hc
    rw [passOver_chain]
    exact h.chains d hd
  · rw [unmoved_after h hlater, ← unmoved_keeps]
    exact h.times.filter _

/-! ## Passes as rounds -/

theorem unmoved_ids : ((unmoved db workspaceId start).map (·.id)).Nodup :=
  openCases_ids.sublist (List.filter_sublist.map _)

/-- The pass as a round: the line is of the cases that have not been written yet. -/
def roundOf (workspaceId : Int) (config : FundingRadarConfig) (start : DateTime) (db : RadarDb) (pass : Pass) :
    Round Int where
  line := (unmoved db workspaceId start).map (·.id)
  behind := (moved db workspaceId start).map (·.id)
  stays id := (batch db workspaceId).any fun c => c.id == id && c.waits db.events config pass
  nodup := unmoved_ids

def rounds (workspaceId : Int) (config : FundingRadarConfig) (start : DateTime) : RadarDb → List Pass → List (Round Int)
  | _, [] => []
  | db, pass :: passes => roundOf workspaceId config start db pass ::
    rounds workspaceId config start (evaluateRadarCases workspaceId config db pass).1 passes

theorem roundOf_batch : (roundOf workspaceId config start db pass).batch batchSize = batchIds db workspaceId := by
  rw [Round.batch, roundOf, ← List.map_append, ← openCases_eq, ← List.map_take]
  rfl

/-- Who keeps its place is told by the id. -/
theorem filter_stays (start : DateTime) (hsub : ∀ c ∈ rows, c ∈ batch db workspaceId) :
    (rows.map (·.id)).filter (roundOf workspaceId config start db pass).stays =
      (rows.filter (CaseRow.waits · db.events config pass)).map (·.id) := by
  rw [List.filter_map]
  congr 1
  refine List.filter_congr fun c hc => ?_
  rw [Function.comp_apply, roundOf, Bool.eq_iff_iff, List.any_eq_true]
  simp only [Bool.and_eq_true, beq_iff_eq]
  refine ⟨fun h => ?_, fun h => ⟨c, hsub c hc, rfl, h⟩⟩
  obtain ⟨d, hd, hid, hwaits⟩ := h
  obtain rfl := List.inj_on_of_nodup_map openCases_ids (List.mem_of_mem_take hd)
    (List.mem_of_mem_take (hsub c hc)) hid
  exact hwaits

theorem roundOf_kept : ((roundOf workspaceId config start db pass).kept batchSize).length =
    waiting workspaceId config db pass := by
  rw [Round.kept, roundOf_batch, batchIds, filter_stays start (fun c hc => hc), List.length_map]
  rfl

theorem roundOf_left (h : Underway db workspaceId start) (hlater : ∀ id, start < pass.dbNow id) :
    (unmoved (evaluateRadarCases workspaceId config db pass).1 workspaceId start).map (·.id) =
      (roundOf workspaceId config start db pass).left batchSize := by
  rw [unmoved_after h hlater, List.map_append, List.map_drop,
    ← filter_stays start fun c hc => (mem_batch_iff (List.mem_of_mem_take hc)).mpr hc, List.map_take]
  rfl

theorem rounds_chain (config : FundingRadarConfig) (h : Underway db workspaceId start)
    (hlater : ∀ pass ∈ passes, ∀ id, start < pass.dbNow id) :
    Rounds batchSize (rounds workspaceId config start db passes) := by
  induction passes generalizing db with
  | nil => exact List.IsChain.nil
  | cons pass passes ih =>
    have hpass := hlater pass List.mem_cons_self
    have hrest := ih (h.after config hpass) fun p hp => hlater p (List.mem_cons_of_mem _ hp)
    cases passes with
    | nil => exact List.IsChain.singleton _
    | cons next passes => exact List.isChain_cons_cons.mpr ⟨roundOf_left h hpass, hrest⟩

theorem served_rounds : served batchSize (rounds workspaceId config start db passes) =
    passedTo workspaceId config db passes := by
  induction passes generalizing db with
  | nil => rfl
  | cons pass passes ih =>
    rw [rounds, served, List.flatMap_cons, roundOf_batch, passedTo, ← ih]
    rfl

theorem taken_rounds : taken batchSize (rounds workspaceId config start db passes) =
    waits workspaceId config db passes := by
  induction passes generalizing db with
  | nil => rfl
  | cons pass passes ih =>
    rw [rounds, taken_cons, roundOf_kept, waits, ih]

theorem rounds_length : (rounds workspaceId config start db passes).length = passes.length := by
  induction passes generalizing db with
  | nil => rfl
  | cons pass passes ih => rw [rounds, List.length_cons, List.length_cons, ih]

theorem rounds_dropLast : rounds workspaceId config start db passes.dropLast =
    (rounds workspaceId config start db passes).dropLast := by
  induction passes generalizing db with
  | nil => rfl
  | cons pass passes ih =>
    cases passes with
    | nil => rfl
    | cons next passes =>
      rw [List.dropLast_cons_cons, rounds, ih]
      rfl

/-- A case that no pass comes to is where it was. -/
theorem unmoved_of_not_passed (h : Underway db workspaceId start)
    (hlater : ∀ pass ∈ passes, ∀ id, start < pass.dbNow id) (hc : c ∈ unmoved db workspaceId start)
    (hnot : c.id ∉ passedTo workspaceId config db passes) :
    c ∈ unmoved (afterPasses workspaceId config db passes) workspaceId start := by
  induction passes generalizing db with
  | nil => exact hc
  | cons pass passes ih =>
    rw [passedTo, List.mem_append, not_or] at hnot
    have hpass := hlater pass List.mem_cons_self
    refine ih (h.after config hpass) (fun p hp => hlater p (List.mem_cons_of_mem _ hp)) ?_ hnot.2
    rw [unmoved_after h hpass]
    rw [← List.take_append_drop batchSize (unmoved db workspaceId start), List.mem_append] at hc
    refine List.mem_append_right _ (hc.resolve_left fun htake => ?_)
    exact hnot.1 (List.mem_map_of_mem ((mem_batch_iff (List.mem_of_mem_take htake)).mpr htake))

/-- Passes cover the open cases exactly when there are places in their batches for all of
them and for the cases that are left waiting before the last pass. -/
theorem covers_iff (h : Begins db workspaceId start passes) : Covers workspaceId config db passes ↔
    (openCases db workspaceId).length + waits workspaceId config db passes.dropLast ≤ batchSize * passes.length := by
  have hall : unmoved db workspaceId start = openCases db workspaceId :=
    List.filter_eq_self.mpr fun c hc => by simpa using h.before c hc
  have hpassed : Covers workspaceId config db passes ↔
      ∀ c ∈ openCases db workspaceId, c.id ∈ passedTo workspaceId config db passes := by
    refine forall₂_congr fun c hc => or_iff_left_of_imp fun hclosed => ?_
    by_contra hnot
    have hstill := unmoved_of_not_passed h.underway h.later (hall ▸ hc) hnot
    exact hclosed (List.mem_map_of_mem (List.mem_of_mem_filter hstill))
  rw [hpassed]
  cases passes with
  | nil =>
    simp [passedTo, waits, List.eq_nil_iff_forall_not_mem]
  | cons pass passes =>
    have hserved := served_iff (rounds_chain config h.underway h.later)
    have hline : (roundOf workspaceId config start db pass).line = (openCases db workspaceId).map (·.id) :=
      congrArg (List.map _) hall
    rw [← rounds, ← rounds_dropLast, served_rounds, taken_rounds, rounds_length, hline, List.length_map] at hserved
    rw [← hserved, List.forall_mem_map]

end

/-- So many batches take all of the cases. -/
def batchesFor (n : Nat) : Nat := (n + (batchSize - 1)) / batchSize

/-- After as many passes as batches are needed for the open cases of a workspace, each has
been evaluated or is open no more, exactly when these batches have places for all of them
and for every verdict to wait before the last pass. -/
theorem evaluateRadarCases_covers_iff (db : RadarDb) (workspaceId : Int) (config : FundingRadarConfig)
    (start : DateTime)
    (passes : List Pass) (h : Begins db workspaceId start passes)
    (hpasses : passes.length = batchesFor (openCases db workspaceId).length) :
    Covers workspaceId config db passes ↔
      (openCases db workspaceId).length + waits workspaceId config db passes.dropLast ≤
        batchSize * batchesFor (openCases db workspaceId).length := by
  rw [covers_iff h, hpasses]

/-! ## A crowd of cases -/

/-- A prepared case, which waits for its deployment however long it takes. -/
def waitingCase (n : Nat) : CaseRow where
  id := n
  workspaceId := 1
  chain := "solana"
  recipient := String.ofList (List.replicate n 'a')
  firstFundedAt := 0
  firstFundingUsd := none
  firstFundingNative := 100
  sourceAddress := "source"
  sourceKind := none
  fanoutCount := 0
  deployWindowEndsAt := days 7
  stage := .preparation
  confidence := 55
  evidence := none
  updatedAt := n
  dismissedReason := none

theorem waitingCase_key_injective : Function.Injective fun n => (waitingCase n).key := by
  intro m n h
  simp only [CaseRow.key, waitingCase, Prod.mk.injEq, true_and] at h
  have hlen := congrArg List.length (String.ofList_injective h)
  simpa using hlen

theorem waitingCase_id_injective : Function.Injective fun n => (waitingCase n).id := fun _ _ h => Int.ofNat_inj.mp h

def crowd (n : Nat) : RadarDb where
  dbNow := n
  observations := []
  wallets := []
  cases := (List.range n).map waitingCase
  events := []
  nextCaseId := n
  keys_nodup := by
    rw [List.map_map]
    exact List.nodup_range.map waitingCase_key_injective
  ids_nodup := by
    rw [List.map_map]
    exact List.nodup_range.map waitingCase_id_injective
  ids_lt := by
    intro c hc
    obtain ⟨i, hi, rfl⟩ := List.mem_map.mp hc
    exact Int.ofNat_lt.mpr (List.mem_range.mp hi)
  events_case := by
    intro e he
    cases he

section
variable {n : Nat} {db : RadarDb} {pass : Pass} {passes : List Pass}

theorem openCases_crowd (h : db.cases = (crowd n).cases) : (openCases db 1).Perm ((List.range n).map waitingCase) := by
  refine openCases_perm.trans (List.Perm.of_eq ?_)
  rw [h]
  refine List.filter_eq_self.mpr fun c hc => ?_
  obtain ⟨i, -, rfl⟩ := List.mem_map.mp hc
  rfl

theorem openCases_crowd_length (h : db.cases = (crowd n).cases) : (openCases db 1).length = n := by
  rw [(openCases_crowd h).length_eq, List.length_map, List.length_range]

theorem crowd_begins (hlater : ∀ pass ∈ passes, ∀ id, (n : Int) < pass.dbNow id) : Begins (crowd n) 1 n passes := by
  refine ⟨fun c hc => ?_, ?_, fun c hc => ?_, hlater⟩
  · obtain ⟨i, -, rfl⟩ := List.mem_map.mp hc
    exact ⟨.solana, rfl⟩
  · rw [((openCases_crowd (n := n) rfl).map _).nodup_iff, List.map_map]
    exact List.nodup_range.map fun _ _ h => Int.ofNat_inj.mp h
  · obtain ⟨i, hi, rfl⟩ := List.mem_map.mp ((openCases_crowd (n := n) rfl).mem_iff.mp hc)
    exact Int.ofNat_le.mpr (List.mem_range.mp hi).le

theorem waitingCase_verdict (i : Nat) (pass : Pass) :
    (waitingCase i).verdict [] defaultConfig pass = .wait [] := by
  simp [CaseRow.verdict, FundingRadarCase.verdict, FundingRadarCase.settled, FundingRadarCase.weigh, CaseRow.read,
    waitingCase, evidenceRows, distinctKinds, distinct]

theorem waiting_crowd (h : db.cases = (crowd n).cases) (hevents : db.events = []) :
    waiting 1 defaultConfig db pass = min batchSize n := by
  have hall : ∀ c ∈ batch db 1, c.waits db.events defaultConfig pass = true := by
    intro c hc
    obtain ⟨i, -, rfl⟩ := List.mem_map.mp ((openCases_crowd h).mem_iff.mp (List.mem_of_mem_take hc))
    rw [CaseRow.waits, hevents, waitingCase_verdict]
    rfl
  rw [waiting, List.filter_eq_self.mpr hall, batch, List.length_take, openCases_crowd_length h]

/-- A pass leaves the crowd as it is. -/
theorem crowd_after (pass : Pass) {start : DateTime} (hu : Underway db 1 start) (h : db.cases = (crowd n).cases)
    (hevents : db.events = []) :
    (evaluateRadarCases 1 defaultConfig db pass).1.cases = (crowd n).cases ∧
      (evaluateRadarCases 1 defaultConfig db pass).1.events = [] := by
  obtain ⟨hcases, hsame⟩ := evaluateRadarCases_cases defaultConfig pass hu
  refine ⟨?_, hsame.trans hevents⟩
  rw [hcases, h, hevents]
  refine (List.map_congr_left fun c hc => ?_).trans (List.map_id' _)
  obtain ⟨i, -, rfl⟩ := List.mem_map.mp hc
  by_cases hid : (waitingCase i).id ∈ batchIds db 1
  · rw [passOver_mem hid, CaseRow.evaluated, waitingCase_verdict]
    rfl
  · rw [passOver_not_mem hid]

theorem waits_crowd {start : DateTime} (hu : Underway db 1 start) (h : db.cases = (crowd n).cases)
    (hevents : db.events = []) (hlater : ∀ pass ∈ passes, ∀ id, start < pass.dbNow id) :
    waits 1 defaultConfig db passes = min batchSize n * passes.length := by
  induction passes generalizing db with
  | nil => rfl
  | cons pass passes ih =>
    obtain ⟨hcases, hsame⟩ := crowd_after pass hu h hevents
    have hrest := ih (hu.after defaultConfig (hlater pass List.mem_cons_self)) hcases hsame fun p hp =>
      hlater p (List.mem_cons_of_mem _ hp)
    rw [waits, waiting_crowd h hevents, hrest, List.length_cons, Nat.mul_succ, Nat.add_comm]

end

/-- However many passes there are over a hundred and one prepared cases, they find the same
hundred, and not the last one. -/
theorem prepared_cases_starve : (openCases (crowd 101) 1).length = 101 ∧
    ∀ passes : List Pass, (∀ pass ∈ passes, ∀ id, 101 < pass.dbNow id) →
      Begins (crowd 101) 1 101 passes ∧ ¬Covers 1 defaultConfig (crowd 101) passes := by
  have hlength : (openCases (crowd 101) 1).length = 101 := openCases_crowd_length rfl
  refine ⟨hlength, fun passes hlater => ?_⟩
  have hbegins : Begins (crowd 101) 1 101 passes := crowd_begins hlater
  have hwaits := waits_crowd hbegins.underway rfl rfl fun pass hpass => hlater pass (List.dropLast_subset _ hpass)
  refine ⟨hbegins, ?_⟩
  have hfull : min batchSize 101 = 100 := rfl
  rw [covers_iff hbegins, hlength, hwaits, hfull, List.length_dropLast, batchSize]
  omega

/-- Every third case is not prepared yet, and the window of the first is still open when those of the others end. -/
def mixedCase (n : Nat) : CaseRow := { waitingCase n with
  stage := if n % 3 = 0 then .funded else .preparation
  deployWindowEndsAt := days (if n = 0 then 9 else 7) }

theorem mixedCase_key (n : Nat) : (mixedCase n).key = (waitingCase n).key := by
  simp only [CaseRow.key, mixedCase]

theorem mixedCase_id (n : Nat) : (mixedCase n).id = n := rfl

/-- A hundred and twenty cases, with two kinds of evidence for the first. -/
def mixedCrowd : RadarDb where
  dbNow := 120
  observations := []
  wallets := []
  cases := (List.range 120).map mixedCase
  events := [⟨0, "telegram_mention", 1, ⟨none, none⟩⟩, ⟨0, "fanout", 2, ⟨none, none⟩⟩]
  nextCaseId := 120
  keys_nodup := by
    rw [List.map_map]
    refine List.nodup_range.map fun m n h => waitingCase_key_injective ?_
    exact (mixedCase_key m).symm.trans (h.trans (mixedCase_key n))
  ids_nodup := by
    rw [List.map_map]
    refine List.nodup_range.map fun m n h => Int.ofNat_inj.mp ?_
    exact (mixedCase_id m).symm.trans (h.trans (mixedCase_id n))
  ids_lt := by
    intro c hc
    obtain ⟨n, hn, rfl⟩ := List.mem_map.mp hc
    rw [mixedCase_id]
    exact Int.ofNat_lt.mpr (List.mem_range.mp hn)
  events_case := by
    intro e he
    have hfirst : e.caseId = 0 := by
      simp only [List.mem_cons, List.not_mem_nil, or_false] at he
      rcases he with rfl | rfl <;> rfl
    exact ⟨mixedCase 0, List.mem_map_of_mem (List.mem_range.mpr (by decide)), by rw [mixedCase_id, hfirst]; rfl⟩

/-- Passes after most windows have ended. -/
def latePasses : List Pass := [⟨days 7 + 1, fun _ => days 7 + 1⟩, ⟨days 7 + 2, fun _ => days 7 + 2⟩]

example : ((batch mixedCrowd 1).take 4).map (·.verdict mixedCrowd.events defaultConfig ⟨days 7 + 1, fun _ => 0⟩) =
    [.promote ["telegram_mention", "fanout"] 75, .wait [], .wait [], .dismiss] := by decide +kernel

theorem mixed_begins : Begins mixedCrowd 1 120 latePasses := by
  refine ⟨fun c hc => ?_, by decide +kernel, by decide +kernel, by simp [latePasses, days, seconds]⟩
  obtain ⟨n, -, rfl⟩ := List.mem_map.mp hc
  exact ⟨.solana, rfl⟩

/-- The first pass promotes and dismisses enough of its cases for the second to come to all others. -/
theorem mixed_cases_covered : Covers 1 defaultConfig mixedCrowd latePasses :=
  (evaluateRadarCases_covers_iff mixedCrowd 1 defaultConfig 120 latePasses mixed_begins (by decide +kernel)).mpr
    (by decide +kernel)

end WhaleIntelligence.Radar
