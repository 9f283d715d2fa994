import WhaleIntelligence.Radar.View

/- When the radar is evaluated, and what of its outcome depends on it.

   A schedule records evidence of one case and evaluates it in between. What an
   evaluation does depends on the evidence it looks at, so a schedule is a list of
   looks and the case a machine over them (`run_standing`). The machine leaves `funded`
   at the first look that is enough, and the kinds seen then settle the confidence and
   the alert; the stage in the end is settled by all the evidence together. -/
namespace WhaleIntelligence.Radar
open WhaleIntelligence Query

/-! ## Schedules -/

inductive Call where
  | tick (dbNow : DateTime)
  /-- `record_case_evidence`, or `link_deployment`. -/
  | record (eventKind : String) (observedAt : DateTime) (evidence : CaseEvidence)
  | evaluate (now : DateTime)
  deriving DecidableEq, Repr

/-- The recipient whose case the calls are about. -/
structure Target where
  workspaceId : Int
  chain : ChainKind
  recipient : String
  caseId : Int
  deriving DecidableEq, Repr

def Target.fetch (t : Target) (db : RadarDb) : Option FundingRadarCase := fetchCase db t.workspaceId t.chain t.recipient

def Target.view (t : Target) (db : RadarDb) : Option CaseView := caseView db t.workspaceId t.chain t.recipient

/-- The tables after a call, and its decision when it is an evaluation. -/
def runCall (t : Target) (config : FundingRadarConfig) (db : RadarDb) : Call → RadarDb × List FundingRadarDecision
  | .tick dbNow => ({ db with dbNow := dbNow }, [])
  | .record eventKind observedAt evidence =>
    match recordCaseEvidence db t.caseId eventKind observedAt evidence with
    | .ok db => (db, [])
    | .error _ => (db, [])
  | .evaluate now =>
    let r := evaluateRadarCase db t.workspaceId t.chain t.recipient now config
    (r.1, [r.2])

def runCalls (t : Target) (config : FundingRadarConfig) : RadarDb → List Call → RadarDb × List FundingRadarDecision
  | db, [] => (db, [])
  | db, c :: s =>
    let r := runCall t config db c
    let rest := runCalls t config r.1 s
    (rest.1, r.2 ++ rest.2)

/-- No evaluation finds the case funded after its window. -/
def InTime (t : Target) (config : FundingRadarConfig) : RadarDb → List Call → Prop
  | _, [] => True
  | db, c :: s =>
    (∀ now, c = .evaluate now → ∀ case, t.fetch db = some case → case.stage = .funded →
      now ≤ case.deployWindowEndsAt) ∧ InTime t config (runCall t config db c).1 s

/-- What is compared of two schedules. -/
structure Standing where
  stage : RadarStage
  confidence : Nat
  alerted : Bool
  deriving DecidableEq, Repr

/-- The stage and the confidence in the end, and whether an alert was ever returned. -/
def outcome (t : Target) (config : FundingRadarConfig) (db : RadarDb) (s : List Call) : Option Standing :=
  let r := runCalls t config db s
  (t.fetch r.1).map fun case => ⟨case.stage, case.confidence, r.2.any (·.alert.isSome)⟩

/-! ## Looks -/

def Call.recorded (id : Int) : Call → Option CaseEvent
  | .record eventKind observedAt evidence => some ⟨id, eventKind, observedAt, evidence⟩
  | _ => none

def recorded (id : Int) (s : List Call) : List CaseEvent := s.filterMap (Call.recorded id)

/-- The evidence that each evaluation of a schedule looks at. -/
def looks (id : Int) : List CaseEvent → List Call → List (List CaseEvent)
  | _, [] => []
  | events, .evaluate now :: s => evidenceRows events id now :: looks id events s
  | events, c :: s => looks id (events ++ (c.recorded id).toList) s

def leaves (config : FundingRadarConfig) (rows : List CaseEvent) : Bool :=
  showsDeployment rows || sufficient config rows

/-- What a look does to a case. -/
def Standing.look (config : FundingRadarConfig) (fanoutCount : Nat) (st : Standing)
    (rows : List CaseEvent) : Standing :=
  match st.stage with
  | .funded =>
    if showsDeployment rows then { st with stage := .deployed, confidence := 85 }
    else if sufficient config rows then
      let confidence := preparationConfidence fanoutCount config (distinctKinds rows)
      ⟨.preparation, confidence, st.alerted || decide (config.preparationAlertConfidence ≤ confidence)⟩
    else st
  | .preparation => if showsDeployment rows then { st with stage := .deployed, confidence := 85 } else st
  | .deployed | .dismissed => st

/-- The first look that is enough to leave `funded`. -/
def leavingLook (config : FundingRadarConfig) (id : Int) (events : List CaseEvent) (s : List Call) :
    Option (List CaseEvent) := (looks id events s).find? (leaves config)

def leavingKinds (config : FundingRadarConfig) (id : Int) (events : List CaseEvent) (s : List Call) :
    Option (Finset String) := (leavingLook config id events s).map fun rows => (distinctKinds rows).toFinset

/-- The last evidence is recorded before some evaluation whose clock has reached all of it. -/
def Complete (id : Int) (events : List CaseEvent) (s : List Call) : Prop :=
  ∃ before now after, s = before ++ .evaluate now :: after ∧ recorded id after = [] ∧
    ∀ e ∈ events ++ recorded id s, e.observedAt ≤ now

section
variable {t : Target} {config : FundingRadarConfig} {db : RadarDb} {s : List Call} {view : CaseView} {now : DateTime}

/-! ## Schedules as lists of looks -/

/-- The verdict gives an alert. -/
def Verdict.alerts (config : FundingRadarConfig) : Verdict → Bool
  | .promote _ confidence => decide (config.preparationAlertConfidence ≤ confidence)
  | _ => false

theorem decision_alert {v : Verdict} {case : FundingRadarCase} {workspaceId : Int} {chain : ChainKind}
    {recipient : String} : (v.decision case db workspaceId chain recipient config).alert.isSome = v.alerts config := by
  cases v with
  | promote kinds confidence =>
    by_cases h : config.preparationAlertConfidence ≤ confidence
    · simp [Verdict.decision, Verdict.alerts, h]
    · simp [Verdict.decision, Verdict.alerts, h]
  | terminal => rfl
  | dismiss => rfl
  | deploy kinds => rfl
  | wait kinds => rfl

/-- An evaluation in time is a look. -/
theorem evaluate_look {a : Bool} (hin : view.case.stage = .funded → now ≤ view.case.deployWindowEndsAt) :
    Standing.look config view.case.fanoutCount ⟨view.case.stage, view.case.confidence, a⟩
        (evidenceRows view.events view.case.id now) =
      ⟨(view.evaluate now config).case.stage, (view.evaluate now config).case.confidence,
        a || (view.case.verdict view.events now config).alerts config⟩ := by
  rw [CaseView.evaluate, FundingRadarCase.verdict, FundingRadarCase.settled, Standing.look]
  generalize evidenceRows view.events view.case.id now = rows
  cases hstage : view.case.stage with
  | dismissed => simp [Verdict.apply, Verdict.alerts, hstage]
  | deployed => simp [Verdict.apply, Verdict.alerts, hstage]
  | funded =>
    have hlate : ¬ view.case.deployWindowEndsAt < now := not_lt.mpr (hin hstage)
    rw [FundingRadarCase.weigh, showsDeployment, sufficient]
    by_cases hd : "deployment" ∈ distinctKinds rows
    · simp [hlate, hd, Verdict.apply, Verdict.alerts]
    · by_cases hs : config.preparationEvidenceRequired ≤ (distinctKinds rows).length ∧ nonInfrastructure rows = true
      · simp [hlate, hd, hs, hstage, Verdict.apply, Verdict.alerts]
      · simp [hlate, hd, hs, hstage, Verdict.apply, Verdict.alerts]
  | preparation =>
    rw [FundingRadarCase.weigh, showsDeployment]
    by_cases hd : "deployment" ∈ distinctKinds rows
    · simp [hd, Verdict.apply, Verdict.alerts]
    · simp [hd, hstage, Verdict.apply, Verdict.alerts]

/-- The view after a call. -/
theorem runCall_view (hv : t.view db = some view) (hid : view.case.id = t.caseId) (c : Call) :
    t.view (runCall t config db c).1 = some (match c with
      | .evaluate now => view.evaluate now config
      | c => { view with events := view.events ++ (c.recorded t.caseId).toList }) := by
  obtain ⟨case, hcase, huntimed, hevents⟩ := fetchCase_of_view hv
  cases c with
  | tick dbNow =>
    show t.view db = some { view with events := view.events ++ [] }
    rw [List.append_nil]
    exact hv
  | record eventKind observedAt evidence =>
    have hcaseId : case.id = t.caseId := (congrArg FundingRadarCase.id huntimed).trans hid
    obtain ⟨after, hok, hview, -⟩ := recordCaseEvent_ok hcase eventKind observedAt evidence
    rw [hcaseId] at hok
    rw [huntimed, hevents, hcaseId] at hview
    show t.view (match recordCaseEvent db t.caseId eventKind observedAt evidence with
      | .ok db => (db, [])
      | .error _ => (db, [])).1 = _
    rw [hok]
    exact hview
  | evaluate now =>
    show caseView _ _ _ _ = _
    rw [runCall, caseView_evaluate, show caseView db t.workspaceId t.chain t.recipient = some view from hv,
      Option.map_some]

/-- An evaluation returns an alert when the verdict on the view gives one. -/
theorem runCall_alert (hv : t.view db = some view) (now : DateTime) :
    (runCall t config db (.evaluate now)).2.any (·.alert.isSome) =
      (view.case.verdict view.events now config).alerts config := by
  obtain ⟨case, hcase, huntimed, hevents⟩ := fetchCase_of_view hv
  show ([(evaluateRadarCase db t.workspaceId t.chain t.recipient now config).2].any fun d => d.alert.isSome) = _
  rw [evaluateRadarCase, show fetchCase db t.workspaceId t.chain t.recipient = some case from hcase, List.any_cons,
    List.any_nil, Bool.or_false, decision_alert, ← huntimed, ← hevents, verdict_view]

/-- Evaluations up to the end of the window are in time. -/
theorem inTime_of_window (hv : t.view db = some view) (hid : view.case.id = t.caseId)
    (h : ∀ now, .evaluate now ∈ s → now ≤ view.case.deployWindowEndsAt) : InTime t config db s := by
  induction s generalizing db view with
  | nil => trivial
  | cons c s ih =>
    have hrest : ∀ now, .evaluate now ∈ s → now ≤ view.case.deployWindowEndsAt :=
      fun now hm => h now (List.mem_cons_of_mem _ hm)
    have hview : t.view (runCall t config db c).1 = some _ := runCall_view hv hid c
    refine ⟨fun now hc case hcase _ => ?_, ?_⟩
    · obtain ⟨case', hcase', huntimed, -⟩ := fetchCase_of_view hv
      obtain rfl := Option.some.inj (hcase'.symm.trans hcase)
      have hwindow : case'.deployWindowEndsAt = view.case.deployWindowEndsAt := by rw [← huntimed]; rfl
      rw [hwindow]
      exact h now (hc ▸ List.mem_cons_self)
    · cases c with
      | tick dbNow => exact ih hview hid hrest
      | record eventKind observedAt evidence => exact ih hview hid hrest
      | evaluate now =>
        refine ih hview (apply_id.trans hid) ?_
        have hwindow : (view.evaluate now config).case.deployWindowEndsAt = view.case.deployWindowEndsAt :=
          apply_deployWindowEndsAt
        rw [hwindow]
        exact hrest

/-- A schedule whose evaluations are in time is a list of looks. -/
theorem run_standing {a : Bool} (hv : t.view db = some view) (hid : view.case.id = t.caseId)
    (hin : InTime t config db s) :
    ∃ final, t.fetch (runCalls t config db s).1 = some final ∧
      (⟨final.stage, final.confidence, a || (runCalls t config db s).2.any (·.alert.isSome)⟩ : Standing) =
        (looks t.caseId view.events s).foldl (Standing.look config view.case.fanoutCount)
          ⟨view.case.stage, view.case.confidence, a⟩ := by
  induction s generalizing db view a with
  | nil =>
    obtain ⟨case, hcase, huntimed, -⟩ := fetchCase_of_view hv
    refine ⟨case, hcase, ?_⟩
    rw [← huntimed]
    simp [runCalls, looks, FundingRadarCase.untimed]
  | cons c s ih =>
    obtain ⟨hnow, hrest⟩ := hin
    have hview : t.view (runCall t config db c).1 = some _ := runCall_view hv hid c
    have hany : ∀ ds : List FundingRadarDecision, (a || ((runCall t config db c).2 ++ ds).any (·.alert.isSome)) =
        ((a || (runCall t config db c).2.any (·.alert.isSome)) || ds.any (·.alert.isSome)) := by
      intro ds
      rw [List.any_append, Bool.or_assoc]
    show ∃ final, t.fetch (runCalls t config (runCall t config db c).1 s).1 = some final ∧
      (⟨_, _, a || ((runCall t config db c).2 ++ _).any _⟩ : Standing) = _
    rw [hany]
    cases c with
    | tick dbNow =>
      obtain ⟨final, hfinal, hst⟩ := ih (a := a) hview hid hrest
      refine ⟨final, hfinal, ?_⟩
      simpa [runCall, looks, Call.recorded] using hst
    | record eventKind observedAt evidence =>
      obtain ⟨final, hfinal, hst⟩ := ih (a := a) hview hid hrest
      have hnone : (runCall t config db (.record eventKind observedAt evidence)).2 = [] := by
        rw [runCall]
        split <;> rfl
      refine ⟨final, hfinal, ?_⟩
      rw [hnone]
      simpa [looks] using hst
    | evaluate now =>
      obtain ⟨case, hcase, huntimed, -⟩ := fetchCase_of_view hv
      have hearly : view.case.stage = .funded → now ≤ view.case.deployWindowEndsAt := by
        rw [← huntimed]
        exact hnow now rfl case hcase
      obtain ⟨final, hfinal, hst⟩ := ih (a := a || (view.case.verdict view.events now config).alerts config) hview
        (apply_id.trans hid) hrest
      refine ⟨final, hfinal, ?_⟩
      have hfanout : (view.evaluate now config).case.fanoutCount = view.case.fanoutCount := apply_fanoutCount
      rw [runCall_alert hv, hst, hfanout, looks, List.foldl_cons, ← hid, evaluate_look hearly]
      rfl

/-! ## What a list of looks leads to -/

variable {fanoutCount : Nat} {l : List (List CaseEvent)} {st : Standing} {rows all : List CaseEvent}

/-- Where the first look that is enough leads, and whether a later one shows a deployment. -/
def Standing.after (config : FundingRadarConfig) (fanoutCount : Nat) (st : Standing) (leaving : Option (List CaseEvent))
    (deployment : Bool) : Standing :=
  match leaving with
  | none => st
  | some rows =>
    if showsDeployment rows then ⟨.deployed, 85, st.alerted⟩
    else
      let confidence := preparationConfidence fanoutCount config (distinctKinds rows)
      let alerted := st.alerted || decide (config.preparationAlertConfidence ≤ confidence)
      if deployment then ⟨.deployed, 85, alerted⟩ else ⟨.preparation, confidence, alerted⟩

theorem foldl_look_deployed (h : st.stage = .deployed) : l.foldl (Standing.look config fanoutCount) st = st := by
  induction l with
  | nil => rfl
  | cons rows l ih =>
    rw [List.foldl_cons, show Standing.look config fanoutCount st rows = st by simp [Standing.look, h], ih]

theorem foldl_look_preparation (h : st.stage = .preparation) : l.foldl (Standing.look config fanoutCount) st =
    if l.any showsDeployment then ⟨.deployed, 85, st.alerted⟩ else st := by
  induction l with
  | nil => rfl
  | cons rows l ih =>
    rw [List.foldl_cons, List.any_cons]
    cases hd : showsDeployment rows with
    | true =>
      rw [show Standing.look config fanoutCount st rows = ⟨.deployed, 85, st.alerted⟩ by simp [Standing.look, h, hd],
        foldl_look_deployed rfl]
      rfl
    | false =>
      rw [show Standing.look config fanoutCount st rows = st by simp [Standing.look, h, hd], ih]
      rfl

/-- A case stays funded up to the first look that is enough. -/
theorem foldl_look_funded (h : st.stage = .funded) : l.foldl (Standing.look config fanoutCount) st =
    st.after config fanoutCount (l.find? (leaves config)) (l.any showsDeployment) := by
  induction l with
  | nil => rfl
  | cons rows l ih =>
    rw [List.foldl_cons, List.find?_cons, List.any_cons, leaves]
    cases hd : showsDeployment rows with
    | true =>
      rw [show Standing.look config fanoutCount st rows = ⟨.deployed, 85, st.alerted⟩ by simp [Standing.look, h, hd],
        foldl_look_deployed rfl]
      simp [Standing.after, hd]
    | false =>
      cases hs : sufficient config rows with
      | true =>
        rw [show Standing.look config fanoutCount st rows = ⟨.preparation,
            preparationConfidence fanoutCount config (distinctKinds rows), st.alerted ||
              decide (config.preparationAlertConfidence ≤
                preparationConfidence fanoutCount config (distinctKinds rows))⟩
          by simp [Standing.look, h, hd, hs], foldl_look_preparation rfl]
        simp [Standing.after, hd]
      | false =>
        rw [show Standing.look config fanoutCount st rows = st by simp [Standing.look, h, hd, hs], ih]
        simp

/-! ## What the evidence settles -/

theorem leaves_mono (h : rows ⊆ all) (hl : leaves config rows = true) : leaves config all = true := by
  rw [leaves, Bool.or_eq_true] at hl ⊢
  exact hl.imp (showsDeployment_mono h) (sufficient_mono h)

theorem recorded_cons {id : Int} {c : Call} : recorded id (c :: s) = (c.recorded id).toList ++ recorded id s := by
  cases c <;> rfl

theorem recorded_append {id : Int} {s' : List Call} : recorded id (s ++ s') = recorded id s ++ recorded id s' :=
  List.filterMap_append

/-- Every look is at evidence that was there or is recorded. -/
theorem looks_subset {id : Int} {events : List CaseEvent} (h : rows ∈ looks id events s) :
    rows ⊆ events ++ recorded id s := by
  induction s generalizing events with
  | nil => cases h
  | cons c s ih =>
    rw [recorded_cons]
    cases c with
    | tick dbNow =>
      rw [← List.append_assoc]
      exact ih h
    | record eventKind observedAt evidence =>
      rw [← List.append_assoc]
      exact ih h
    | evaluate now =>
      rcases List.mem_cons.mp h with rfl | h
      · exact List.subset_append_of_subset_left _ (List.filter_subset_self _)
      · exact ih h

theorem looks_append {id : Int} {events : List CaseEvent} {s' : List Call} :
    looks id events (s ++ s') = looks id events s ++ looks id (events ++ recorded id s) s' := by
  induction s generalizing events with
  | nil => simp [looks, recorded]
  | cons c s ih =>
    rw [recorded_cons]
    cases c with
    | tick dbNow =>
      rw [← List.append_assoc]
      exact ih
    | record eventKind observedAt evidence =>
      rw [← List.append_assoc]
      exact ih
    | evaluate now =>
      show _ :: looks id events (s ++ s') = _ :: (looks id events s ++ _)
      rw [ih]
      rfl

/-- In a complete schedule some look is at all of the evidence. -/
theorem Complete.look {id : Int} {events : List CaseEvent} (h : Complete id events s)
    (hid : ∀ e ∈ events, e.caseId = id) :
    ∃ rows ∈ looks id events s, events ++ recorded id s ⊆ rows := by
  obtain ⟨before, now, after, rfl, hafter, hnow⟩ := h
  have hrecorded : recorded id (before ++ .evaluate now :: after) = recorded id before := by
    rw [recorded_append, recorded_cons, hafter]
    exact List.append_nil _
  rw [hrecorded] at hnow ⊢
  refine ⟨evidenceRows (events ++ recorded id before) id now, ?_, fun e he => ?_⟩
  · rw [looks_append]
    exact List.mem_append_right _ List.mem_cons_self
  · have hcase : e.caseId = id := by
      rcases List.mem_append.mp he with he | he
      · exact hid e he
      · obtain ⟨c, -, hc⟩ := List.mem_filterMap.mp he
        cases c with
        | record eventKind observedAt evidence => obtain rfl := Option.some.inj hc; rfl
        | tick => cases hc
        | evaluate => cases hc
    exact List.mem_filter.mpr ⟨he, by simp [hcase, hnow e he]⟩

/-- What some look of a complete schedule shows is what all the evidence shows. -/
theorem Complete.any_iff {id : Int} {events : List CaseEvent} (h : Complete id events s)
    (hid : ∀ e ∈ events, e.caseId = id) {p : List CaseEvent → Bool}
    (hp : ∀ rows all : List CaseEvent, rows ⊆ all → p rows = true → p all = true) :
    (looks id events s).any p = p (events ++ recorded id s) := by
  rw [Bool.eq_iff_iff, List.any_eq_true]
  refine ⟨fun hsome => ?_, fun hall => ?_⟩
  · obtain ⟨rows, hrows, hp'⟩ := hsome
    exact hp rows _ (looks_subset hrows) hp'
  · obtain ⟨rows, hrows, hsub⟩ := h.look hid
    exact ⟨rows, hrows, hp _ rows hsub hall⟩

/-! ## The outcome -/

theorem showsDeployment_congr {rows' : List CaseEvent}
    (h : (distinctKinds rows).toFinset = (distinctKinds rows').toFinset) :
    showsDeployment rows = showsDeployment rows' := by
  rw [Bool.eq_iff_iff, showsDeployment, showsDeployment, List.contains_iff_mem, List.contains_iff_mem,
    ← List.mem_toFinset, h, List.mem_toFinset]

/-- Looks at the same kinds lead to the same place. -/
theorem after_congr {leaving leaving' : Option (List CaseEvent)} {deployment : Bool}
    (h : leaving.map (fun rows => (distinctKinds rows).toFinset) =
      leaving'.map fun rows => (distinctKinds rows).toFinset) :
    st.after config fanoutCount leaving deployment = st.after config fanoutCount leaving' deployment := by
  cases leaving with
  | none =>
    cases leaving' with
    | none => rfl
    | some rows' => cases h
  | some rows =>
    cases leaving' with
    | none => cases h
    | some rows' =>
      have hkinds := Option.some.inj h
      rw [Standing.after, Standing.after, showsDeployment_congr hkinds, preparationConfidence_congr hkinds]

/-- The stage that all the evidence together settles. -/
def settledStage (config : FundingRadarConfig) (all : List CaseEvent) : RadarStage :=
  if showsDeployment all then .deployed else if sufficient config all then .preparation else .funded

theorem leavingLook_isSome {id : Int} {events : List CaseEvent} (h : Complete id events s)
    (hid : ∀ e ∈ events, e.caseId = id) :
    (leavingLook config id events s).isSome = leaves config (events ++ recorded id s) := by
  rw [leavingLook, ← h.any_iff hid fun _ _ => leaves_mono, Bool.eq_iff_iff, List.find?_isSome, List.any_eq_true]

theorem after_stage {id : Int} {events : List CaseEvent} (h : Complete id events s) (hid : ∀ e ∈ events, e.caseId = id)
    (hst : st.stage = .funded) :
    (st.after config fanoutCount (leavingLook config id events s)
      (showsDeployment (events ++ recorded id s))).stage = settledStage config (events ++ recorded id s) := by
  have hsome : (leavingLook config id events s).isSome = _ := leavingLook_isSome h hid
  rw [leaves] at hsome
  cases hl : leavingLook config id events s with
  | none =>
    rw [hl, Option.isSome_none, eq_comm, Bool.or_eq_false_iff] at hsome
    rw [settledStage, hsome.1, hsome.2]
    exact hst
  | some rows =>
    have hsub : rows ⊆ events ++ recorded id s := looks_subset (List.mem_of_find?_eq_some hl)
    rw [hl, Option.isSome_some, eq_comm, Bool.or_eq_true] at hsome
    rw [settledStage, Standing.after]
    by_cases hd : showsDeployment (events ++ recorded id s) = true
    · rw [if_pos hd, if_pos hd]
      split <;> rfl
    · have hrows : ¬ showsDeployment rows = true := fun h => hd (showsDeployment_mono hsub h)
      rw [if_neg hd, if_pos (hsome.resolve_left hd), if_neg hrows]
      simp only [hd, if_false, Bool.false_eq_true]

/-- Short of `preparation` the confidence is the one of the stage. -/
theorem after_confidence {leaving : Option (List CaseEvent)} {deployment : Bool} (hst : st.stage = .funded)
    (h : (st.after config fanoutCount leaving deployment).stage ≠ .preparation) :
    (st.after config fanoutCount leaving deployment).confidence =
      if (st.after config fanoutCount leaving deployment).stage = .deployed then 85 else st.confidence := by
  cases leaving with
  | none => simp [Standing.after, hst]
  | some rows =>
    by_cases hd : showsDeployment rows = true
    · simp [Standing.after, hd]
    · cases deployment with
      | true => simp [Standing.after, hd]
      | false => simp [Standing.after, hd] at h

/-- A schedule is a machine over its looks, and the looks are settled by the evidence. -/
theorem outcome_eq {case : FundingRadarCase} {events : List CaseEvent} (hview : t.view db = some ⟨case.untimed, events⟩)
    (hid : case.id = t.caseId) (hfunded : case.stage = .funded) (hevents : ∀ e ∈ events, e.caseId = t.caseId)
    (hin : InTime t config db s) (hfull : Complete t.caseId events s) :
    outcome t config db s = some (Standing.after config case.fanoutCount ⟨.funded, case.confidence, false⟩
      (leavingLook config t.caseId events s) (showsDeployment (events ++ recorded t.caseId s))) := by
  obtain ⟨final, hfinal, hst⟩ := run_standing (a := false) hview hid hin
  rw [foldl_look_funded hfunded, hfull.any_iff hevents fun _ _ => showsDeployment_mono] at hst
  rw [outcome]
  simp only [hfinal, Option.map_some]
  rw [← Bool.false_or (List.any _ _), hst]
  show some (Standing.after config case.fanoutCount ⟨case.stage, case.confidence, false⟩ _ _) = _
  rw [hfunded]
  rfl

/-- Two schedules that record the same evidence of a funded case, with every
evaluation in time and one after all of the evidence, end in the same stage, which is
the one that all the evidence settles. They end with the same confidence unless that is
`preparation`, and where the first evaluations that saw enough saw the same kinds, they
always do, and gave an alert both or neither. -/
theorem evaluateRadarCase_timing (t : Target) (config : FundingRadarConfig) (db : RadarDb) (case : FundingRadarCase)
    (s s' : List Call) (hcase : t.fetch db = some case) (hid : case.id = t.caseId) (hfunded : case.stage = .funded)
    (hrecorded : (recorded t.caseId s).Perm (recorded t.caseId s'))
    (hin : InTime t config db s) (hin' : InTime t config db s')
    (hfull : Complete t.caseId (eventsOf db t.caseId) s) (hfull' : Complete t.caseId (eventsOf db t.caseId) s') :
    ∃ final final', outcome t config db s = some final ∧ outcome t config db s' = some final' ∧
      final.stage = settledStage config (eventsOf db t.caseId ++ recorded t.caseId s) ∧ final.stage = final'.stage ∧
      (final.stage ≠ .preparation → final.confidence = final'.confidence) ∧
      (leavingKinds config t.caseId (eventsOf db t.caseId) s = leavingKinds config t.caseId (eventsOf db t.caseId) s' →
        final.confidence = final'.confidence ∧ final.alerted = final'.alerted) := by
  have hevents : ∀ e ∈ eventsOf db t.caseId, e.caseId = t.caseId := by
    intro e he
    simpa using (List.mem_filter.mp he).2
  have hview : t.view db = some ⟨case.untimed, eventsOf db t.caseId⟩ := by
    rw [Target.view, caseView, show fetchCase _ _ _ _ = some case from hcase, Option.map_some, hid]
  have hall : (eventsOf db t.caseId ++ recorded t.caseId s).Perm (eventsOf db t.caseId ++ recorded t.caseId s') :=
    hrecorded.append_left _
  have hdeployment : showsDeployment (eventsOf db t.caseId ++ recorded t.caseId s) =
      showsDeployment (eventsOf db t.caseId ++ recorded t.caseId s') := by
    rw [Bool.eq_iff_iff]
    exact ⟨showsDeployment_mono hall.subset, showsDeployment_mono hall.symm.subset⟩
  have hsettled : settledStage config (eventsOf db t.caseId ++ recorded t.caseId s) =
      settledStage config (eventsOf db t.caseId ++ recorded t.caseId s') := by
    have hsufficient : sufficient config (eventsOf db t.caseId ++ recorded t.caseId s) =
        sufficient config (eventsOf db t.caseId ++ recorded t.caseId s') := by
      rw [Bool.eq_iff_iff]
      exact ⟨sufficient_mono hall.subset, sufficient_mono hall.symm.subset⟩
    rw [settledStage, settledStage, hdeployment, hsufficient]
  have hstage : (Standing.after config case.fanoutCount ⟨.funded, case.confidence, false⟩
      (leavingLook config t.caseId (eventsOf db t.caseId) s) _).stage = _ := after_stage hfull hevents rfl
  have hstage' : (Standing.after config case.fanoutCount ⟨.funded, case.confidence, false⟩
      (leavingLook config t.caseId (eventsOf db t.caseId) s') _).stage = _ := after_stage hfull' hevents rfl
  refine ⟨_, _, outcome_eq hview hid hfunded hevents hin hfull,
    outcome_eq hview hid hfunded hevents hin' hfull', hstage, ?_, fun hne => ?_, fun hkinds => ?_⟩
  · rw [hstage, hstage', hsettled]
  · rw [after_confidence rfl hne, after_confidence rfl (by rw [hstage', ← hsettled, ← hstage]; exact hne), hstage,
      hstage', hsettled]
  · rw [after_congr hkinds, hdeployment]
    exact ⟨rfl, rfl⟩

end

/-! ## Two mentions and a fan-out -/

def target : Target := ⟨1, .solana, "wallet", 1⟩

def mention : Call := .record "telegram_mention" 1 ⟨none, none⟩

def fanout : Call := .record "fanout" 2 ⟨none, some false⟩

/-- The case is evaluated between its two records. -/
def evaluatedBetween : List Call := [mention, .evaluate 2, fanout, .evaluate 3]

def evaluatedAfter : List Call := [mention, fanout, .evaluate 3]

def recordedTheOtherWay : List Call := [fanout, mention, .evaluate 3, .evaluate 4]

/-- Both schedules record the same evidence within the window and evaluate after it, but
the first promotes the case before the fan-out is there, and nothing computes the
confidence again. -/
theorem evaluateRadarCase_timing_differs :
    (recorded 1 evaluatedBetween).Perm (recorded 1 evaluatedAfter) ∧
      (∀ e ∈ eventsOf fundedDb 1 ++ recorded 1 evaluatedBetween, e.observedAt ≤ fundedCase.deployWindowEndsAt) ∧
      Complete 1 (eventsOf fundedDb 1) evaluatedBetween ∧ Complete 1 (eventsOf fundedDb 1) evaluatedAfter ∧
      outcome target defaultConfig fundedDb evaluatedBetween = some ⟨.preparation, 60, false⟩ ∧
      outcome target defaultConfig fundedDb evaluatedAfter = some ⟨.preparation, 75, true⟩ := by
  refine ⟨by decide +kernel, by decide +kernel, ⟨[mention, .evaluate 2, fanout], 3, [], rfl, rfl, by decide +kernel⟩,
    ⟨[mention, fanout], 3, [], rfl, rfl, by decide +kernel⟩, by decide +kernel, by decide +kernel⟩

theorem evaluateRadarCase_timing_swapped :
    outcome target defaultConfig fundedDb evaluatedAfter =
      outcome target defaultConfig fundedDb recordedTheOtherWay := by
  have hview : target.view fundedDb = some ⟨(fundedCase.read .solana).untimed, eventsOf fundedDb 1⟩ := by decide +kernel
  have hin : ∀ s : List Call, (∀ c ∈ s, c = mention ∨ c = fanout ∨ c = .evaluate 3 ∨ c = .evaluate 4) →
      InTime target defaultConfig fundedDb s := by
    intro s hs
    refine inTime_of_window hview rfl fun now hm => ?_
    rcases hs _ hm with h | h | h | h
    · cases h
    · cases h
    · obtain rfl := Call.evaluate.inj h; decide +kernel
    · obtain rfl := Call.evaluate.inj h; decide +kernel
  obtain ⟨final, final', hfinal, hfinal', -, hstage, -, hkinds⟩ :=
    evaluateRadarCase_timing target defaultConfig fundedDb
    (fundedCase.read .solana) evaluatedAfter recordedTheOtherWay (by decide +kernel) rfl rfl (by decide +kernel)
    (hin _ (by decide)) (hin _ (by decide)) ⟨[mention, fanout], 3, [], rfl, rfl, by decide +kernel⟩
    ⟨[fanout, mention, .evaluate 3], 4, [], rfl, rfl, by decide +kernel⟩
  obtain ⟨hconfidence, halerted⟩ := hkinds (by decide +kernel)
  rw [hfinal, hfinal', Option.some.injEq]
  cases final
  cases final'
  simp only at hstage hconfidence halerted
  rw [hstage, hconfidence, halerted]

end WhaleIntelligence.Radar
