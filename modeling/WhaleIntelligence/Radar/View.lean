import Mathlib.Data.Finset.Dedup
import WhaleIntelligence.Radar.Model

/- One case of the radar and its evidence.

   An evaluation and a record touch the case and the events of one recipient only, so
   they are functions of the view of that case (`caseView_evaluate`,
   `recordCaseEvent_ok`). The view forgets when the row was last touched. -/
namespace WhaleIntelligence.Radar
open WhaleIntelligence Query

structure CaseView where
  case : FundingRadarCase
  events : List CaseEvent
  deriving DecidableEq, Repr

def eventsOf (db : RadarDb) (id : Int) : List CaseEvent := db.events.filter fun e => e.caseId == id

def FundingRadarCase.untimed (case : FundingRadarCase) : FundingRadarCase := { case with updatedAt := 0 }

def FundingRadarCase.withFanout (case : FundingRadarCase) (fanoutCount : Nat) : FundingRadarCase :=
  { case with fanoutCount := fanoutCount }

@[simp] theorem withFanout_id (case : FundingRadarCase) (n : Nat) : (case.withFanout n).id = case.id := rfl

@[simp] theorem withFanout_fanoutCount (case : FundingRadarCase) (n : Nat) : (case.withFanout n).fanoutCount = n := rfl

theorem withFanout_self (case : FundingRadarCase) : case.withFanout case.fanoutCount = case := rfl

def caseView (db : RadarDb) (workspaceId : Int) (chain : ChainKind) (recipient : String) : Option CaseView :=
  (fetchCase db workspaceId chain recipient).map fun case => ⟨case.untimed, eventsOf db case.id⟩

/-- The case after a verdict. -/
def Verdict.apply (v : Verdict) (case : FundingRadarCase) : FundingRadarCase :=
  match v with
  | .dismiss => { case with stage := .dismissed }
  | .deploy _ => { case with stage := .deployed, confidence := 85 }
  | .promote _ confidence => { case with stage := .preparation, confidence := confidence }
  | .terminal | .wait _ => case

def CaseView.evaluate (view : CaseView) (now : DateTime) (config : FundingRadarConfig) : CaseView :=
  { view with case := (view.case.verdict view.events now config).apply view.case }

section
variable {db : RadarDb} {workspaceId : Int} {chain : ChainKind} {recipient : String} {now : DateTime}
variable {config : FundingRadarConfig} {case : FundingRadarCase} {id : Int} {v : Verdict}

/-! ## Updates -/

theorem caseRow_updateCase {change : CaseChange} : caseRow (db.updateCase id change) workspaceId chain recipient =
    (caseRow db workspaceId chain recipient).map (change.at id) := by
  rw [caseRow, caseRow, RadarDb.updateCase, List.find?_map]
  congr 2
  funext c
  rw [Function.comp_apply, change.key_at]

theorem eventsOf_updateCase {change : CaseChange} {caseId : Int} :
    eventsOf (db.updateCase id change) caseId = eventsOf db caseId := rfl

theorem read_id (row : CaseRow) : (row.read chain).id = row.id := rfl

theorem caseRow_of_fetchCase (h : fetchCase db workspaceId chain recipient = some case) :
    ∃ row, caseRow db workspaceId chain recipient = some row ∧ row.read chain = case ∧ row.id = case.id := by
  obtain ⟨row, hrow, hread⟩ := Option.map_eq_some_iff.mp h
  exact ⟨row, hrow, hread, by rw [← hread]; rfl⟩

theorem fetchCase_of_view {view : CaseView} (h : caseView db workspaceId chain recipient = some view) :
    ∃ case, fetchCase db workspaceId chain recipient = some case ∧ case.untimed = view.case ∧
      eventsOf db case.id = view.events := by
  obtain ⟨case, hcase, rfl⟩ := Option.map_eq_some_iff.mp h
  exact ⟨case, hcase, rfl, rfl⟩

/-- A written confidence is read back. -/
theorem asU32_asI32 {n : Nat} (h : n < 2147483648) : asU32 (max (asI32 n) 0) = n := by
  rw [asU32, asI32, Int.bmod_def]
  omega

theorem preparationConfidence_le (fanoutCount : Nat) (kinds : List String) :
    preparationConfidence fanoutCount config kinds ≤ 95 := Nat.min_le_right _ _

/-- The confidence of a verdict is small. -/
theorem verdict_promote_le {events : List CaseEvent} {kinds : List String} {confidence : Nat}
    (h : case.verdict events now config = .promote kinds confidence) : confidence ≤ 95 := by
  rw [FundingRadarCase.verdict, FundingRadarCase.settled] at h
  split at h
  · cases h
  · split at h
    · cases h
    · rw [Option.getD_none, FundingRadarCase.weigh] at h
      split at h
      · cases h
      · split at h
        · obtain ⟨-, rfl⟩ := Verdict.promote.inj h
          exact preparationConfidence_le _ _
        · cases h

/-! ## Evaluations -/

/-- A verdict writes the case it was given on, and nothing else of it. -/
theorem fetchCase_write (h : fetchCase db workspaceId chain recipient = some case)
    (hsmall : ∀ kinds confidence, v = .promote kinds confidence → confidence ≤ 95) :
    ∃ after, fetchCase (v.write db case.id) workspaceId chain recipient = some after ∧
      after.untimed = (v.apply case).untimed := by
  obtain ⟨row, hrow, rfl, hid⟩ := caseRow_of_fetchCase h
  have hwritten : ∀ (change : CaseChange) (db' : RadarDb), db' = db.updateCase (row.read chain).id change →
      fetchCase db' workspaceId chain recipient = some ((change.apply row).read chain) := by
    intro change db' hdb
    rw [hdb, fetchCase, caseRow_updateCase, hrow, Option.map_some, Option.map_some, CaseChange.at, if_pos hid]
  cases v with
  | terminal => exact ⟨_, h, rfl⟩
  | wait kinds => exact ⟨_, h, rfl⟩
  | dismiss =>
    refine ⟨_, hwritten _ _ rfl, ?_⟩
    simp only [FundingRadarCase.untimed, CaseRow.read, dismissal, Verdict.apply]
  | deploy kinds =>
    refine ⟨_, hwritten _ _ rfl, ?_⟩
    have hback : asU32 (max (asI32 85) 0) = 85 := by decide +kernel
    simp only [FundingRadarCase.untimed, CaseRow.read, stageChange, Verdict.apply, Nat.cast_ofNat, hback]
  | promote kinds confidence =>
    refine ⟨_, hwritten _ _ rfl, ?_⟩
    have hle := hsmall kinds confidence rfl
    have hback : asU32 (max (asI32 confidence) 0) = confidence := asU32_asI32 (by omega)
    simp only [FundingRadarCase.untimed, CaseRow.read, stageChange, Verdict.apply, hback]

theorem write_frame : (v.write db id).observations = db.observations ∧ (v.write db id).wallets = db.wallets ∧
    (v.write db id).events = db.events := by
  cases v <;> exact ⟨rfl, rfl, rfl⟩

theorem apply_id : (v.apply case).id = case.id := by cases v <;> rfl

theorem evidenceRows_eventsOf : evidenceRows (eventsOf db id) id now = evidenceRows db.events id now := by
  rw [evidenceRows, evidenceRows, eventsOf, List.filter_filter]
  refine List.filter_congr fun e _ => ?_
  cases e.caseId == id <;> simp

/-- The verdict depends on the view alone. -/
theorem verdict_view : case.untimed.verdict (eventsOf db case.id) now config = case.verdict db.events now config := by
  show (case.settled now).getD (case.weigh config (evidenceRows (eventsOf db case.id) case.id now)) = _
  rw [evidenceRows_eventsOf]
  rfl

theorem caseView_evaluate : caseView (evaluateRadarCase db workspaceId chain recipient now config).1 workspaceId chain
    recipient = (caseView db workspaceId chain recipient).map (CaseView.evaluate · now config) := by
  rw [evaluateRadarCase, caseView, caseView]
  cases h : fetchCase db workspaceId chain recipient with
  | none => rw [h]; rfl
  | some case =>
    obtain ⟨after, hafter, huntimed⟩ := fetchCase_write (v := case.verdict db.events now config) h
      fun kinds confidence hv => verdict_promote_le hv
    have hid : after.id = case.id := (congrArg FundingRadarCase.id huntimed).trans apply_id
    show ((fetchCase ((case.verdict db.events now config).write db case.id) workspaceId chain recipient).map _) = _
    rw [hafter, Option.map_some, Option.map_some, Option.map_some, huntimed, hid, eventsOf, write_frame.2.2]
    show some (CaseView.mk _ _) = some (CaseView.mk ((case.untimed.verdict (eventsOf db case.id) now config).apply _) _)
    rw [verdict_view]
    congr 2
    cases case.verdict db.events now config <;> rfl

theorem evaluate_frame :
    (evaluateRadarCase db workspaceId chain recipient now config).1.observations = db.observations ∧
    (evaluateRadarCase db workspaceId chain recipient now config).1.wallets = db.wallets := by
  rw [evaluateRadarCase]
  cases fetchCase db workspaceId chain recipient with
  | none => exact ⟨rfl, rfl⟩
  | some case => exact ⟨write_frame.1, write_frame.2.1⟩

theorem storeFundingObservation_frame {event : FundingEvent} : (storeFundingObservation db event).1.cases = db.cases ∧
    (storeFundingObservation db event).1.events = db.events ∧
    (storeFundingObservation db event).1.wallets = db.wallets := by
  rw [storeFundingObservation]
  split <;> exact ⟨rfl, rfl, rfl⟩

theorem upsertWallet_frame {kind address source : String} {seenAt : DateTime} :
    (upsertWallet db kind address seenAt source).cases = db.cases ∧
      (upsertWallet db kind address seenAt source).events = db.events ∧
      (upsertWallet db kind address seenAt source).observations = db.observations := by
  rw [upsertWallet]
  split <;> exact ⟨rfl, rfl, rfl⟩

/-! ## Records -/

theorem caseRow_mem {row : CaseRow} (h : caseRow db workspaceId chain recipient = some row) :
    row ∈ db.cases ∧ row.key = (workspaceId, chain.asStr, recipient) :=
  ⟨List.mem_of_find?_eq_some h, by simpa using List.find?_some h⟩

/-- The record of the case's own evidence succeeds. -/
theorem recordCaseEvent_ok (h : fetchCase db workspaceId chain recipient = some case) (kind : String)
    (observedAt : DateTime) (evidence : CaseEvidence) :
    ∃ after, recordCaseEvent db case.id kind observedAt evidence = .ok after ∧
      caseView after workspaceId chain recipient =
        some ⟨case.untimed, eventsOf db case.id ++ [⟨case.id, kind, observedAt, evidence⟩]⟩ ∧
      after.observations = db.observations ∧ after.wallets = db.wallets := by
  obtain ⟨row, hrow, -, hid⟩ := caseRow_of_fetchCase h
  have hcase : ∃ c ∈ db.cases, c.id = case.id := ⟨row, (caseRow_mem hrow).1, hid⟩
  refine ⟨_, dif_pos hcase, ?_, rfl, rfl⟩
  show (fetchCase db workspaceId chain recipient).map (fun c => CaseView.mk c.untimed
    ((db.events ++ [(⟨case.id, kind, observedAt, evidence⟩ : CaseEvent)]).filter fun e => e.caseId == c.id)) = _
  rw [h, Option.map_some, List.filter_append]
  simp [eventsOf]

theorem fetchCase_updateCase (change : CaseChange) (h : fetchCase db workspaceId chain recipient = some case) :
    ∃ row : CaseRow, row.read chain = case ∧
      fetchCase (db.updateCase case.id change) workspaceId chain recipient = some ((change.apply row).read chain) := by
  obtain ⟨row, hrow, hread, hid⟩ := caseRow_of_fetchCase h
  refine ⟨row, hread, ?_⟩
  rw [fetchCase, caseRow_updateCase, hrow, Option.map_some, Option.map_some, CaseChange.at, if_pos hid]

theorem read_fanoutChange (row : CaseRow) (n : Int) (dbNow : DateTime) :
    (((fanoutChange n dbNow).apply row).read chain).untimed =
      (row.read chain).untimed.withFanout (asU32 (max n 0)) := by
  simp only [FundingRadarCase.untimed, FundingRadarCase.withFanout, CaseRow.read, fanoutChange]

theorem caseView_fanout {view : CaseView} (h : caseView db workspaceId chain recipient = some view) (n : Nat) :
    caseView (updateCaseFanout db view.case.id n) workspaceId chain recipient =
      some { view with case := view.case.withFanout (asU32 (max (asI32 n) 0)) } := by
  obtain ⟨case, hcase, huntimed, hevents⟩ := fetchCase_of_view h
  have hviewId : view.case.id = case.id := by rw [← huntimed]; rfl
  obtain ⟨row, hread, hfetch⟩ := fetchCase_updateCase (fanoutChange (asI32 n) db.dbNow) hcase
  have hid : row.id = case.id := by rw [← hread, read_id]
  rw [updateCaseFanout, caseView, hviewId, hfetch, Option.map_some, read_fanoutChange, read_id, CaseChange.id_apply,
    hread, huntimed, hid, eventsOf_updateCase, hevents]

/-- The first case of a recipient is inserted, and no event names it yet. -/
theorem insertCase_ok (row : CaseRow) (h : fetchCase db workspaceId chain recipient = none)
    (hkey : row.key = (workspaceId, chain.asStr, recipient)) :
    ∃ inserted case, insertCase db row = .ok inserted ∧ fetchCase inserted workspaceId chain recipient = some case ∧
      case.id = db.nextCaseId ∧ case.stage = row.stage ∧ eventsOf inserted case.id = [] := by
  have hrow : db.cases.find? (fun c => c.key == (workspaceId, chain.asStr, recipient)) = none :=
    Option.map_eq_none_iff.mp h
  have hnew : ¬ row.key ∈ db.cases.map CaseRow.key := by
    intro hmem
    obtain ⟨c, hc, hck⟩ := List.mem_map.mp hmem
    exact List.find?_eq_none.mp hrow c hc (beq_iff_eq.mpr (hck.trans hkey))
  refine ⟨_, { row with id := db.nextCaseId }.read chain, dif_neg hnew, ?_, rfl, rfl, ?_⟩
  · have hself : (({ row with id := db.nextCaseId } : CaseRow).key == (workspaceId, chain.asStr, recipient)) = true :=
      beq_iff_eq.mpr hkey
    show ((db.cases ++ [{ row with id := db.nextCaseId }]).find? _).map (CaseRow.read · chain) = _
    rw [List.find?_append, hrow, Option.none_or, List.find?_singleton, if_pos hself, Option.map_some]
  · show db.events.filter (fun e => e.caseId == db.nextCaseId) = []
    rw [List.filter_eq_nil_iff]
    intro e he heq
    obtain ⟨c, hc, hce⟩ := db.events_case e he
    have hlt := db.ids_lt c hc
    rw [hce, beq_iff_eq.mp heq] at hlt
    exact lt_irrefl _ hlt

/-! ## Evidence as a set -/

def showsDeployment (rows : List CaseEvent) : Bool := (distinctKinds rows).contains "deployment"

/-- Enough kinds of evidence, and not from infrastructure alone. -/
def sufficient (config : FundingRadarConfig) (rows : List CaseEvent) : Bool :=
  decide (config.preparationEvidenceRequired ≤ (distinctKinds rows).length) && nonInfrastructure rows

variable {rows all : List CaseEvent} {fanoutCount : Nat}

theorem mem_distinctKinds {kind : String} : kind ∈ distinctKinds rows ↔ ∃ e ∈ rows, e.eventKind = kind := mem_distinct

theorem distinctKinds_mono (h : rows ⊆ all) : distinctKinds rows ⊆ distinctKinds all := by
  intro kind hk
  obtain ⟨e, he, rfl⟩ := mem_distinctKinds.mp hk
  exact mem_distinctKinds.mpr ⟨e, h he, rfl⟩

theorem showsDeployment_mono (h : rows ⊆ all) (hd : showsDeployment rows = true) : showsDeployment all = true :=
  List.contains_iff_mem.mpr (distinctKinds_mono h (List.contains_iff_mem.mp hd))

/-- More evidence is enough where less is. -/
theorem sufficient_mono (h : rows ⊆ all) (hs : sufficient config rows = true) : sufficient config all = true := by
  simp only [sufficient, Bool.and_eq_true, decide_eq_true_eq, nonInfrastructure, List.any_eq_true] at hs ⊢
  obtain ⟨hlen, e, he, hinfra⟩ := hs
  have hle : (distinctKinds rows).length ≤ (distinctKinds all).length :=
    length_distinct_le fun e he => mem_distinctKinds.mpr ⟨e, h he, rfl⟩
  exact ⟨hlen.trans hle, e, h he, hinfra⟩

/-- The confidence depends on which kinds there are. -/
theorem preparationConfidence_congr {kinds kinds' : List String} (h : kinds.toFinset = kinds'.toFinset) :
    preparationConfidence fanoutCount config kinds = preparationConfidence fanoutCount config kinds' := by
  have hcontains : kinds.contains = kinds'.contains := by
    funext kind
    rw [Bool.eq_iff_iff, List.contains_iff_mem, List.contains_iff_mem, ← List.mem_toFinset, h, List.mem_toFinset]
  rw [preparationConfidence, preparationConfidence, hcontains]

theorem toFinset_distinctKinds_congr {rows' : List CaseEvent} (h : ∀ e, e ∈ rows ↔ e ∈ rows') :
    (distinctKinds rows).toFinset = (distinctKinds rows').toFinset := by
  ext kind
  rw [List.mem_toFinset, List.mem_toFinset, mem_distinctKinds, mem_distinctKinds]
  exact exists_congr fun e => and_congr_left fun _ => h e

/-- What the evidence makes of a case. -/
theorem weigh_apply : (case.weigh config rows).apply case =
    if showsDeployment rows then { case with stage := .deployed, confidence := 85 }
    else if sufficient config rows = true ∧ case.stage = .funded then
      { case with
        stage := .preparation
        confidence := preparationConfidence case.fanoutCount config (distinctKinds rows) }
    else case := by
  have hiff : (sufficient config rows = true ∧ case.stage = .funded) ↔
      config.preparationEvidenceRequired ≤ (distinctKinds rows).length ∧ nonInfrastructure rows = true ∧
        case.stage = .funded := by
    rw [sufficient, Bool.and_eq_true, decide_eq_true_eq, and_assoc]
  rw [FundingRadarCase.weigh, showsDeployment]
  by_cases hd : (distinctKinds rows).contains "deployment" = true
  · rw [if_pos hd, if_pos hd]
    rfl
  · rw [if_neg hd, if_neg hd]
    by_cases hs : sufficient config rows = true ∧ case.stage = .funded
    · rw [if_pos hs, if_pos (hiff.mp hs)]
      rfl
    · rw [if_neg hs, if_neg fun h => hs (hiff.mpr h)]
      rfl

/-- An evaluation depends on the set of the evidence. -/
theorem evaluate_congr {view view' : CaseView} (hcase : view.case = view'.case)
    (hevents : ∀ e, e ∈ view.events ↔ e ∈ view'.events) :
    (view.evaluate now config).case = (view'.evaluate now config).case := by
  rw [CaseView.evaluate, CaseView.evaluate, FundingRadarCase.verdict, FundingRadarCase.verdict, hcase]
  show Verdict.apply (Option.getD _ _) view'.case = Verdict.apply (Option.getD _ _) view'.case
  cases view'.case.settled now with
  | some v => rfl
  | none =>
    have hrows : ∀ e, e ∈ evidenceRows view.events view'.case.id now ↔
      e ∈ evidenceRows view'.events view'.case.id now := by
      intro e
      rw [evidenceRows, evidenceRows, List.mem_filter, List.mem_filter, hevents]
    have hsub : evidenceRows view.events view'.case.id now ⊆ evidenceRows view'.events view'.case.id now :=
      fun e he => (hrows e).mp he
    have hsub' : evidenceRows view'.events view'.case.id now ⊆ evidenceRows view.events view'.case.id now :=
      fun e he => (hrows e).mpr he
    rw [Option.getD_none, Option.getD_none, weigh_apply, weigh_apply,
      preparationConfidence_congr (toFinset_distinctKinds_congr hrows),
      Bool.eq_iff_iff.mpr ⟨showsDeployment_mono hsub, showsDeployment_mono hsub'⟩,
      Bool.eq_iff_iff.mpr ⟨sufficient_mono hsub, sufficient_mono hsub'⟩]

theorem apply_fanoutCount : (v.apply case).fanoutCount = case.fanoutCount := by cases v <;> rfl

theorem apply_deployWindowEndsAt : (v.apply case).deployWindowEndsAt = case.deployWindowEndsAt := by cases v <;> rfl

/-- A dismissed case stays as it is. -/
theorem evaluate_dismissed {view : CaseView} (h : view.case.stage = .dismissed) : view.evaluate now config = view := by
  have hv : view.case.verdict view.events now config = .terminal := by
    rw [FundingRadarCase.verdict, FundingRadarCase.settled, if_pos (Or.inl h)]
    rfl
  rw [CaseView.evaluate, hv]
  rfl

/-- A funded case that was not deployed expires, is promoted by evidence that is enough,
or waits. -/
theorem evaluate_funded {view : CaseView} (hstage : view.case.stage = .funded)
    (hd : showsDeployment (evidenceRows view.events view.case.id now) = false) :
    (view.evaluate now config).case.stage = if view.case.deployWindowEndsAt < now then .dismissed
      else if sufficient config (evidenceRows view.events view.case.id now) then .preparation else .funded := by
  have hopen : ¬ (view.case.stage = .dismissed ∨ view.case.stage = .deployed) := by simp [hstage]
  rw [CaseView.evaluate, FundingRadarCase.verdict, FundingRadarCase.settled, if_neg hopen]
  by_cases hlate : view.case.deployWindowEndsAt < now
  · rw [if_pos ⟨hlate, hstage⟩, if_pos hlate]
    rfl
  · rw [if_neg fun h => hlate h.1, if_neg hlate]
    show ((view.case.weigh config _).apply view.case).stage = _
    rw [weigh_apply, if_neg (by rw [hd]; decide)]
    by_cases hs : sufficient config (evidenceRows view.events view.case.id now) = true
    · rw [if_pos ⟨hs, hstage⟩, if_pos hs]
    · rw [if_neg fun h => hs h.1, if_neg hs]
      exact hstage

end

/-! ## A funded case -/

def emptyDb : RadarDb where
  dbNow := 0
  observations := []
  wallets := []
  cases := []
  events := []
  nextCaseId := 1
  keys_nodup := by decide
  ids_nodup := by decide
  ids_lt := by decide
  events_case := by decide

def fundedCase : CaseRow :=
  ⟨1, 1, "solana", "wallet", 0, some 30000, 150, "source", none, 0, days 7, .funded, 55,
    some ⟨"tx", some 30000, 150, false⟩, 0, none⟩

/-- A case with its first funding. -/
def fundedDb : RadarDb where
  dbNow := 0
  observations := []
  wallets := []
  cases := [fundedCase]
  events := [⟨1, "first_funding", 0, ⟨some "tx", some false⟩⟩]
  nextCaseId := 2
  keys_nodup := by decide
  ids_nodup := by decide
  ids_lt := by decide
  events_case := by decide

end WhaleIntelligence.Radar
