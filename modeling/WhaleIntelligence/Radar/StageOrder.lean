import WhaleIntelligence.Lib.KeyedTable
import WhaleIntelligence.Lib.Runs
import WhaleIntelligence.Radar.View

/- The stages of the radar, with any number of evaluations at once.

   An evaluation fetches its case, reads the evidence, and writes a stage under the id
   of the case; each is a step of its own, and the steps of all evaluations interleave
   with the statements of ingestions and records. The write does not look at the stage
   again, so an evaluation that decided on an older one can write over a newer one. -/
namespace WhaleIntelligence.Radar.Order
open WhaleIntelligence Query KeyedTable Runs

/-! ## Statements of the others -/

/-- What ingestions and records send to the database. -/
inductive Statement where
  | storeObservation (event : FundingEvent)
  | upsertWallet (chain address : String) (seenAt : DateTime) (source : String)
  | insertCase (row : CaseRow)
  | recordEvent (caseId : Int) (eventKind : String) (observedAt : DateTime) (evidence : CaseEvidence)
  | updateFanout (caseId : Int) (fanout : Nat)
  deriving DecidableEq, Repr

/-- A statement that fails changes nothing. -/
def Statement.apply (db : RadarDb) : Statement → RadarDb
  | .storeObservation event => (storeFundingObservation db event).1
  | .upsertWallet chain address seenAt source => Radar.upsertWallet db chain address seenAt source
  | .insertCase row => (Radar.insertCase db row).toOption.getD db
  | .recordEvent caseId eventKind observedAt evidence =>
    (recordCaseEvent db caseId eventKind observedAt evidence).toOption.getD db
  | .updateFanout caseId fanout => updateCaseFanout db caseId fanout

/-! ## Evaluations -/

/-- The arguments of an evaluation. -/
structure EvalCall where
  workspaceId : Int
  chain : ChainKind
  recipient : String
  now : DateTime
  config : FundingRadarConfig
  deriving DecidableEq, Repr

/-- How far an evaluation is. -/
inductive Phase where
  | called
  | fetched (case : FundingRadarCase)
  | decided (case : FundingRadarCase) (verdict : Verdict)
  deriving DecidableEq, Repr

structure Evaluation where
  call : EvalCall
  phase : Phase
  deriving DecidableEq, Repr

structure RadarState where
  db : RadarDb
  evaluations : Table Nat Evaluation

/-- An evaluation after its fetch. Without a case it is over, and a settled case needs no
evidence. -/
def EvalCall.fetch (call : EvalCall) (db : RadarDb) : Option Evaluation :=
  (fetchCase db call.workspaceId call.chain call.recipient).map fun case =>
    ⟨call, match case.settled call.now with
      | some v => .decided case v
      | none => .fetched case⟩

inductive Event where
  | tick (dbNow : DateTime)
  | statement (st : Statement)
  | call (e : Nat) (call : EvalCall)
  | fetch (e : Nat)
  | read (e : Nat)
  | write (e : Nat)
  /-- A statement of the evaluation fails. -/
  | fail (e : Nat)
  deriving DecidableEq, Repr

def Step (s : RadarState) (event : Event) (s' : RadarState) : Prop :=
  match event with
  | .tick dbNow => s' = { s with db := { s.db with dbNow := dbNow } }
  | .statement st => s' = { s with db := st.apply s.db }
  | .call e call => s.evaluations e = none ∧ s' = { s with evaluations := s.evaluations.set e (some ⟨call, .called⟩) }
  | .fetch e =>
    ∃ call, s.evaluations e = some ⟨call, .called⟩ ∧
      s' = { s with evaluations := s.evaluations.set e (call.fetch s.db) }
  | .read e =>
    ∃ call case, s.evaluations e = some ⟨call, .fetched case⟩ ∧
      s' = { s with evaluations := s.evaluations.set e (some ⟨call, .decided case
        (case.weigh call.config (evidenceRows s.db.events case.id call.now))⟩) }
  | .write e =>
    ∃ call case v, s.evaluations e = some ⟨call, .decided case v⟩ ∧
      s' = ⟨v.write s.db case.id, s.evaluations.set e none⟩
  | .fail e => s' = { s with evaluations := s.evaluations.set e none }

/-! ## The calls as runs -/

section
variable {db db' db'' : RadarDb}

def Sends (db db' : RadarDb) : Prop := ∃ sts : List Statement, db' = sts.foldl Statement.apply db

theorem Sends.refl (db : RadarDb) : Sends db db := ⟨[], rfl⟩

theorem Sends.one (st : Statement) (db : RadarDb) : Sends db (st.apply db) := ⟨[st], rfl⟩

theorem Sends.trans (h : Sends db db') (h' : Sends db' db'') : Sends db db'' := by
  obtain ⟨sts, rfl⟩ := h
  obtain ⟨sts', rfl⟩ := h'
  exact ⟨sts ++ sts', (List.foldl_append).symm⟩

theorem sends_of_insertCase {row : CaseRow} (h : insertCase db row = .ok db') : Sends db db' := by
  have hone := Sends.one (.insertCase row) db
  rwa [Statement.apply, h] at hone

theorem sends_of_recordCaseEvent {caseId : Int} {eventKind : String} {observedAt : DateTime} {evidence : CaseEvidence}
    (h : recordCaseEvent db caseId eventKind observedAt evidence = .ok db') : Sends db db' := by
  have hone := Sends.one (.recordEvent caseId eventKind observedAt evidence) db
  rwa [Statement.apply, h] at hone

theorem additionalFunding_sends (workspaceId : Int) (event : FundingEvent) (config : FundingRadarConfig) (id : Int) :
    Sends db (additionalFunding db workspaceId event config id).1 := by
  rw [additionalFunding]
  cases h : recordCaseEvent db id "additional_funding" event.observedAt event.evidence with
  | error e => exact Sends.refl db
  | ok after => exact (sends_of_recordCaseEvent h).trans (Sends.one (.updateFanout id _) after)

theorem openCase_sends (workspaceId : Int) (event : FundingEvent) (config : FundingRadarConfig) :
    Sends db (openCase db workspaceId event config).1 := by
  rw [openCase]
  cases h : insertCase db (event.newCase workspaceId config db.dbNow) with
  | error e => exact Sends.refl db
  | ok inserted =>
    simp only
    cases h' : recordCaseEvent inserted db.nextCaseId "first_funding" event.observedAt event.evidence with
    | error e => exact sends_of_insertCase h
    | ok after => exact (sends_of_insertCase h).trans (sends_of_recordCaseEvent h')

theorem openFundedCase_sends (workspaceId : Int) (event : FundingEvent) (config : FundingRadarConfig) :
    Sends db (openFundedCase db workspaceId event config).1 := by
  rw [openFundedCase]
  split
  · exact openCase_sends workspaceId event config
  · exact Sends.refl db

/-- An ingestion sends statements of the others only. -/
theorem ingestFundingEvent_sends (db : RadarDb) (workspaceId : Int) (event : FundingEvent) (config : FundingRadarConfig)
    (percentileThresholdSol : Option Rat) :
    Sends db (ingestFundingEvent db workspaceId event config percentileThresholdSol).1 := by
  have hobservation : Sends db _ := Sends.one (.storeObservation event) db
  rw [ingestFundingEvent]
  split
  · simp only
    split
    · have hrecipient := hobservation.trans
        (Sends.one (.upsertWallet event.chain.asStr event.toAddress event.observedAt "funding_radar") _)
      have hsource := hrecipient.trans
        (Sends.one (.upsertWallet event.chain.asStr event.fromAddress event.observedAt "funding_radar") _)
      split
      · refine hsource.trans ?_
        rw [fundCase]
        split
        · split
          · exact additionalFunding_sends _ _ _ _
          · exact openFundedCase_sends _ _ _
        · exact openFundedCase_sends _ _ _
      · exact hsource
    · exact hobservation
  · exact Sends.refl db

/-- An evaluation that nothing comes between is the evaluation of the model. -/
theorem evaluateRadarCase_run (db : RadarDb) (evaluations : Table Nat Evaluation) (e : Nat) (call : EvalCall)
    (hfree : evaluations e = none) : ∃ es, Run Step ⟨db, evaluations⟩ es
      ⟨(evaluateRadarCase db call.workspaceId call.chain call.recipient call.now call.config).1, evaluations⟩ := by
  have hfetched : ∀ rest t, Run Step ⟨db, evaluations.set e (call.fetch db)⟩ rest t →
      Run Step ⟨db, evaluations⟩ (.call e call :: .fetch e :: rest) t := by
    intro rest t hrest
    refine ⟨_, ⟨hfree, rfl⟩, _, ⟨call, set_self _ _ _, rfl⟩, ?_⟩
    rw [set_set]
    exact hrest
  have hwrite : ∀ case v, Step ⟨db, evaluations.set e (some ⟨call, .decided case v⟩)⟩ (.write e)
      ⟨v.write db case.id, evaluations⟩ := by
    intro case v
    refine ⟨call, case, v, set_self _ _ _, ?_⟩
    rw [set_set, set_unchanged hfree]
  rw [evaluateRadarCase]
  cases hcase : fetchCase db call.workspaceId call.chain call.recipient with
  | none =>
    refine ⟨_, hfetched [] _ ?_⟩
    rw [EvalCall.fetch, hcase, Option.map_none, set_unchanged hfree]
    rfl
  | some case =>
    rw [EvalCall.fetch, hcase, Option.map_some] at hfetched
    simp only [FundingRadarCase.verdict]
    cases hsettled : case.settled call.now with
    | some v =>
      rw [hsettled] at hfetched
      exact ⟨_, hfetched [.write e] _ (run_singleton.mpr (hwrite case v))⟩
    | none =>
      rw [hsettled] at hfetched
      refine ⟨_, hfetched [.read e, .write e] _ ⟨_, ⟨call, case, set_self _ _ _, rfl⟩, ?_⟩⟩
      rw [set_set]
      exact run_singleton.mpr (hwrite case _)

end

/-! ## The order of the stages -/

/-- The stage a verdict writes. -/
def written : Verdict → Option RadarStage
  | .dismiss => some .dismissed
  | .deploy _ => some .deployed
  | .promote _ _ => some .preparation
  | .terminal | .wait _ => none

/-- The stage stays, leaves `funded`, or goes from `preparation` to `deployed`. -/
def MovesTo (a b : RadarStage) : Prop := a = b ∨ a = .funded ∨ (a = .preparation ∧ b = .deployed)

/-- Every case is still there, and its stage has moved in order. -/
def Ordered (db db' : RadarDb) : Prop :=
  ∀ row ∈ db.cases, ∃ row' ∈ db'.cases, row'.id = row.id ∧ row'.key = row.key ∧ MovesTo row.stage row'.stage

/-- A write finds the stage that its evaluation read, the one that it writes, or
`preparation` while it writes `deployed`. -/
def Current (s : RadarState) : Event → Prop
  | .write e => ∀ call case v stage, s.evaluations e = some ⟨call, .decided case v⟩ → written v = some stage →
      ∀ row ∈ s.db.cases, row.id = case.id →
        row.stage = case.stage ∨ row.stage = stage ∨ (row.stage = .preparation ∧ stage = .deployed)
  | _ => True

/-- A step whose write is current. -/
def CurrentStep (s : RadarState) (event : Event) (s' : RadarState) : Prop := Current s event ∧ Step s event s'

/-! ## What an evaluation knows -/

/-- The case that an evaluation fetched. -/
def Phase.case : Phase → Option FundingRadarCase
  | .called => none
  | .fetched case => some case
  | .decided case _ => some case

/-- The fetched case is stored, at its stage or one in order after it, and what was
decided is in order from the stage that was fetched. -/
structure Evaluation.Sound (db : RadarDb) (ev : Evaluation) : Prop where
  stored : ∀ case, ev.phase.case = some case → ∃ row ∈ db.cases, row.id = case.id ∧ MovesTo case.stage row.stage
  fetched : ∀ case, ev.phase = .fetched case → ¬ (case.stage = .dismissed ∨ case.stage = .deployed)
  decided : ∀ case v stage, ev.phase = .decided case v → written v = some stage → MovesTo case.stage stage

def Sound (s : RadarState) : Prop := ∀ e ev, s.evaluations e = some ev → ev.Sound s.db

/-! ## The order -/

section
variable {a b c stage : RadarStage} {db db' db'' : RadarDb} {v : Verdict} {id : Int} {case : FundingRadarCase}
variable {s s' t u s₀ : RadarState} {event : Event} {es fs : List Event} {ev : Evaluation}

theorem MovesTo.trans (h : MovesTo a b) (h' : MovesTo b c) : MovesTo a c := by
  obtain rfl | ha | ⟨ha, rfl⟩ := h
  · exact h'
  · exact Or.inr (Or.inl ha)
  · obtain rfl | hb | ⟨hb, -⟩ := h'
    · exact Or.inr (Or.inr ⟨ha, rfl⟩)
    · cases hb
    · cases hb

/-- Nothing follows `deployed` or `dismissed`. -/
theorem MovesTo.of_terminal (h : MovesTo a b) (ha : a = .deployed ∨ a = .dismissed) : b = a := by
  obtain rfl | hf | ⟨hp, -⟩ := h
  · rfl
  · rw [hf] at ha
    simp at ha
  · rw [hp] at ha
    simp at ha

theorem Ordered.refl (db : RadarDb) : Ordered db db := fun row hrow => ⟨row, hrow, rfl, rfl, Or.inl rfl⟩

theorem Ordered.trans (h : Ordered db db') (h' : Ordered db' db'') : Ordered db db'' := by
  intro row hrow
  obtain ⟨row', hrow', hid, hkey, hmoves⟩ := h row hrow
  obtain ⟨row'', hrow'', hid', hkey', hmoves'⟩ := h' row' hrow'
  exact ⟨row'', hrow'', hid'.trans hid, hkey'.trans hkey, hmoves.trans hmoves'⟩

theorem Ordered.of_subset (h : db.cases ⊆ db'.cases) : Ordered db db' := by
  intro row hrow
  exact ⟨row, h hrow, rfl, rfl, Or.inl rfl⟩

/-! ## What a statement does to the cases -/

theorem updateCase_ordered {change : CaseChange}
    (h : ∀ row ∈ db.cases, row.id = id → MovesTo row.stage (change.apply row).stage) :
    Ordered db (db.updateCase id change) := by
  intro row hrow
  refine ⟨change.at id row, List.mem_map_of_mem hrow, change.id_at id row, change.key_at id row, ?_⟩
  rw [CaseChange.at]
  split
  · exact h row hrow ‹_›
  · exact Or.inl rfl

theorem fanoutChange_stage (n : Int) (dbNow : DateTime) (row : CaseRow) :
    ((fanoutChange n dbNow).apply row).stage = row.stage := rfl

/-- No statement of the others moves a stage. -/
theorem statement_ordered (st : Statement) : Ordered db (st.apply db) := by
  cases st with
  | storeObservation event =>
    apply Ordered.of_subset
    rw [Statement.apply, storeFundingObservation_frame.1]
    exact List.Subset.refl _
  | upsertWallet chain address seenAt source =>
    apply Ordered.of_subset
    rw [Statement.apply, upsertWallet_frame.1]
    exact List.Subset.refl _
  | insertCase row =>
    apply Ordered.of_subset
    rw [Statement.apply, insertCase]
    split
    · exact List.Subset.refl _
    · exact List.subset_append_left _ _
  | recordEvent caseId eventKind observedAt evidence =>
    apply Ordered.of_subset
    rw [Statement.apply, recordCaseEvent]
    split <;> exact List.Subset.refl _
  | updateFanout caseId fanout =>
    apply updateCase_ordered
    intro row _ _
    rw [fanoutChange_stage]
    exact Or.inl rfl

/-- A verdict updates the stage of its case, or nothing. -/
theorem write_eq (v : Verdict) (db : RadarDb) (id : Int) :
    (written v = none ∧ v.write db id = db) ∨
      ∃ stage change, written v = some stage ∧ v.write db id = db.updateCase id change ∧
        ∀ row : CaseRow, (change.apply row).stage = stage := by
  cases v with
  | terminal => exact Or.inl ⟨rfl, rfl⟩
  | wait kinds => exact Or.inl ⟨rfl, rfl⟩
  | dismiss => exact Or.inr ⟨_, _, rfl, rfl, fun _ => rfl⟩
  | deploy kinds => exact Or.inr ⟨_, _, rfl, rfl, fun _ => rfl⟩
  | promote kinds confidence => exact Or.inr ⟨_, _, rfl, rfl, fun _ => rfl⟩

/-- A write is in order exactly when it moves the stage of its case in order. -/
theorem write_ordered_iff : Ordered db (v.write db id) ↔
    ∀ stage, written v = some stage → ∀ row ∈ db.cases, row.id = id → MovesTo row.stage stage := by
  obtain ⟨hnone, hdb⟩ | ⟨stage, change, hstage, hdb, happly⟩ := write_eq v db id
  · rw [hdb, hnone]
    exact ⟨fun _ stage hw => (by cases hw), fun _ => Ordered.refl db⟩
  · rw [hdb, hstage]
    refine ⟨fun h stage' hw row hrow hid => ?_, fun h => updateCase_ordered fun row hrow hid => ?_⟩
    · obtain rfl := Option.some.inj hw
      obtain ⟨row', hrow', hid', -, hmoves⟩ := h row hrow
      obtain ⟨row₀, -, rfl⟩ := List.mem_map.mp hrow'
      have hself : change.at id row₀ = change.apply row₀ := by
        rw [change.id_at] at hid'
        rw [CaseChange.at, if_pos (hid'.trans hid)]
      rwa [hself, happly] at hmoves
    · rw [happly]
      exact h stage rfl row hrow hid

/-! ## Fetches and reads -/

/-- A case that is settled by itself moves in order. -/
theorem settled_moves {now : DateTime} (h : case.settled now = some v) (hw : written v = some stage) :
    MovesTo case.stage stage := by
  rw [FundingRadarCase.settled] at h
  split at h
  · obtain rfl := Option.some.inj h
    cases hw
  · split at h
    · rename_i hlate
      exact Or.inr (Or.inl hlate.2)
    · cases h

/-- So does one that the evidence settles. -/
theorem weigh_moves {config : FundingRadarConfig} {rows : List CaseEvent}
    (hopen : ¬ (case.stage = .dismissed ∨ case.stage = .deployed))
      (hw : written (case.weigh config rows) = some stage) :
    MovesTo case.stage stage := by
  rw [FundingRadarCase.weigh] at hw
  split at hw
  · obtain rfl : RadarStage.deployed = stage := Option.some.inj hw
    cases hstage : case.stage with
    | funded => exact Or.inr (Or.inl rfl)
    | preparation => exact Or.inr (Or.inr ⟨rfl, rfl⟩)
    | deployed => exact absurd (Or.inr hstage) hopen
    | dismissed => exact absurd (Or.inl hstage) hopen
  · split at hw
    · rename_i hpromoted
      exact Or.inr (Or.inl hpromoted.2.2)
    · cases hw

theorem Evaluation.Sound.mono (h : ev.Sound db) (ho : Ordered db db') : ev.Sound db' := by
  refine ⟨fun case hcase => ?_, h.fetched, h.decided⟩
  obtain ⟨row, hrow, hid, hmoves⟩ := h.stored case hcase
  obtain ⟨row', hrow', hid', -, hmoves'⟩ := ho row hrow
  exact ⟨row', hrow', hid'.trans hid, hmoves.trans hmoves'⟩

theorem fetch_sound {call : EvalCall} (h : call.fetch db = some ev) : ev.Sound db := by
  obtain ⟨case, hcase, rfl⟩ := Option.map_eq_some_iff.mp h
  obtain ⟨row, hrow, hread, hid⟩ := caseRow_of_fetchCase hcase
  have hstored : ∃ row ∈ db.cases, row.id = case.id ∧ MovesTo case.stage row.stage :=
    ⟨row, (caseRow_mem hrow).1, hid, Or.inl (by rw [← hread]; rfl)⟩
  cases hsettled : case.settled call.now with
  | some v =>
    refine ⟨fun case' heq => ?_, fun case' heq => (by cases heq), fun case' v' stage heq hw => ?_⟩
    · obtain rfl := Option.some.inj heq
      exact hstored
    · obtain ⟨rfl, rfl⟩ := Phase.decided.inj heq
      exact settled_moves hsettled hw
  | none =>
    refine ⟨fun case' heq => ?_, fun case' heq => ?_, fun case' v' stage heq hw => (by cases heq)⟩
    · obtain rfl := Option.some.inj heq
      exact hstored
    · obtain rfl := Phase.fetched.inj heq
      rw [FundingRadarCase.settled] at hsettled
      split at hsettled
      · cases hsettled
      · assumption

/-! ## Steps -/

theorem read_sound {call : EvalCall} {rows : List CaseEvent} (h : Evaluation.Sound db ⟨call, .fetched case⟩) :
    Evaluation.Sound db ⟨call, .decided case (case.weigh call.config rows)⟩ := by
  refine ⟨fun case' heq => h.stored case' heq, fun case' heq => (by cases heq), fun case' v stage heq hw => ?_⟩
  obtain ⟨rfl, rfl⟩ := Phase.decided.inj heq
  exact weigh_moves (h.fetched case rfl) hw

/-- The evaluations after a step are sound for the tables before it. -/
theorem step_evaluations (hs : Sound s) (h : Step s event s') {e : Nat} (hev : s'.evaluations e = some ev) :
    ev.Sound s.db := by
  have hset : ∀ (k : Nat) (new : Option Evaluation), (∀ ev, new = some ev → ev.Sound s.db) →
      s.evaluations.set k new e = some ev → ev.Sound s.db := by
    intro k new hnew hset
    by_cases hk : e = k
    · rw [hk, set_self] at hset
      exact hnew ev hset
    · rw [set_ne _ hk] at hset
      exact hs e ev hset
  cases event with
  | tick dbNow => obtain rfl := h; exact hs e ev hev
  | statement st => obtain rfl := h; exact hs e ev hev
  | call k call =>
    obtain ⟨-, rfl⟩ := h
    refine hset k _ (fun ev heq => ?_) hev
    obtain rfl := Option.some.inj heq
    exact ⟨fun _ heq => (by cases heq), fun _ heq => (by cases heq), fun _ _ _ heq _ => (by cases heq)⟩
  | fetch k =>
    obtain ⟨call, -, rfl⟩ := h
    exact hset k _ (fun ev heq => fetch_sound heq) hev
  | read k =>
    obtain ⟨call, case, hk, rfl⟩ := h
    refine hset k _ (fun ev heq => ?_) hev
    obtain rfl := Option.some.inj heq
    exact read_sound (hs k _ hk)
  | write k =>
    obtain ⟨call, case, v, -, rfl⟩ := h
    exact hset k none (fun ev heq => (by cases heq)) hev
  | fail k =>
    obtain rfl := h
    exact hset k none (fun ev heq => (by cases heq)) hev

/-- A write is in order exactly when it is current. -/
theorem step_ordered_iff (hs : Sound s) (h : Step s event s') : Ordered s.db s'.db ↔ Current s event := by
  cases event with
  | tick dbNow => obtain rfl := h; exact iff_of_true (Ordered.of_subset (List.Subset.refl _)) trivial
  | statement st => obtain rfl := h; exact iff_of_true (statement_ordered st) trivial
  | call k call => obtain ⟨-, rfl⟩ := h; exact iff_of_true (Ordered.refl _) trivial
  | fetch k => obtain ⟨call, -, rfl⟩ := h; exact iff_of_true (Ordered.refl _) trivial
  | read k => obtain ⟨call, case, -, rfl⟩ := h; exact iff_of_true (Ordered.refl _) trivial
  | fail k => obtain rfl := h; exact iff_of_true (Ordered.refl _) trivial
  | write k =>
    obtain ⟨call, case, v, hk, rfl⟩ := h
    have hsound := hs k _ hk
    show Ordered s.db (v.write s.db case.id) ↔ _
    rw [write_ordered_iff]
    refine ⟨fun ho call' case' v' stage hk' hw row hrow hid => ?_, fun hc stage hw row hrow hid => ?_⟩
    · rw [hk, Option.some.injEq, Evaluation.mk.injEq, Phase.decided.injEq] at hk'
      obtain ⟨-, rfl, rfl⟩ := hk'
      obtain rfl | hfunded | hdeploys := ho stage hw row hrow hid
      · exact Or.inr (Or.inl rfl)
      · -- Nothing but `funded` itself comes before `funded`.
        obtain ⟨row', hrow', hid', hmoves⟩ := hsound.stored case rfl
        obtain rfl : row' = row := List.inj_on_of_nodup_map s.db.ids_nodup hrow' hrow (hid'.trans hid.symm)
        rw [hfunded] at hmoves
        obtain heq | heq | ⟨-, heq⟩ := hmoves
        · exact Or.inl (hfunded.trans heq.symm)
        · exact Or.inl (hfunded.trans heq.symm)
        · cases heq
      · exact Or.inr (Or.inr hdeploys)
    · obtain hread | hsame | hdeploys := hc call case v stage hk hw row hrow hid
      · rw [hread]
        exact hsound.decided case v stage rfl hw
      · exact Or.inl hsame
      · exact Or.inr (Or.inr hdeploys)

theorem step_sound (hs : Sound s) (h : CurrentStep s event s') : Sound s' := by
  intro e ev hev
  exact (step_evaluations hs h.2 hev).mono ((step_ordered_iff hs h.2).mpr h.1)

theorem run_sound (hs : Sound s) (h : Run CurrentStep s es t) : Sound t :=
  h.invariant hs fun _ _ _ hs hstep => step_sound hs hstep

theorem run_ordered (hs : Sound s) (h : Run CurrentStep s es t) : Ordered s.db t.db := by
  have hboth : Sound t ∧ Ordered s.db t.db := by
    apply h.invariant (I := fun r => Sound r ∧ Ordered s.db r.db) ⟨hs, Ordered.refl _⟩
    intro r event r' hr hstep
    have hordered : Ordered r.db r'.db := (step_ordered_iff hr.1 hstep.2).mpr hstep.1
    exact ⟨step_sound hr.1 hstep, hr.2.trans hordered⟩
  exact hboth.2

/-- From a state with no evaluation under way, and as long as every write is current,
every case moves in order between any two states of the run, and a terminal stage
stays. And the next step is in order exactly when it is current. -/
theorem evaluateRadarCase_stages (hidle : ∀ e, s₀.evaluations e = none) (hes : Run CurrentStep s₀ es t)
    (hfs : Run CurrentStep t fs u) :
    Ordered t.db u.db ∧
      (∀ row ∈ t.db.cases, row.stage = .deployed ∨ row.stage = .dismissed →
        ∃ row' ∈ u.db.cases, row'.id = row.id ∧ row'.stage = row.stage) ∧
      ∀ event u', Step u event u' → (Ordered u.db u'.db ↔ Current u event) := by
  have hstart : Sound s₀ := by
    intro e ev hev
    rw [hidle] at hev
    cases hev
  have ht : Sound t := run_sound hstart hes
  have ho : Ordered t.db u.db := run_ordered ht hfs
  refine ⟨ho, fun row hrow hterminal => ?_, fun event u' hstep => step_ordered_iff (run_sound ht hfs) hstep⟩
  obtain ⟨row', hrow', hid, -, hmoves⟩ := ho row hrow
  exact ⟨row', hrow', hid, hmoves.of_terminal hterminal⟩

end

/-! ## Two evaluations and a deployment -/

/-- A case with two kinds of evidence. -/
def mentionedDb : RadarDb := Statement.apply fundedDb (.recordEvent 1 "telegram_mention" 1 ⟨none, none⟩)

def idleState : RadarState := ⟨mentionedDb, fun _ => none⟩

def evaluationAt (now : DateTime) : EvalCall := ⟨1, .solana, "wallet", now, defaultConfig⟩

/-- The first evaluation decides to promote the case, then a deployment is linked, and the
second evaluation writes it. -/
def overtaken : List Event :=
  [.call 0 (evaluationAt 1), .fetch 0, .read 0, .statement (.recordEvent 1 "deployment" 2 ⟨some "mint", none⟩),
    .call 1 (evaluationAt 2), .fetch 1, .read 1, .write 1]

theorem fetch_mentioned : (evaluationAt 1).fetch mentionedDb =
    some ⟨evaluationAt 1, .fetched (fundedCase.read .solana)⟩ := by
  decide +kernel

def linkedDb : RadarDb := Statement.apply mentionedDb (.recordEvent 1 "deployment" 2 ⟨some "mint", none⟩)

theorem fetch_linked : (evaluationAt 2).fetch linkedDb = some ⟨evaluationAt 2, .fetched (fundedCase.read .solana)⟩ := by
  decide +kernel

theorem step_fetch {s : RadarState} {e : Nat} {call : EvalCall} {ev : Option Evaluation}
    (h : s.evaluations e = some ⟨call, .called⟩) (hfetch : call.fetch s.db = ev) :
    Step s (.fetch e) ⟨s.db, s.evaluations.set e ev⟩ := ⟨call, h, by rw [hfetch]⟩

theorem fetch_later : (evaluationAt 2).fetch mentionedDb =
    some ⟨evaluationAt 2, .fetched (fundedCase.read .solana)⟩ := by
  decide +kernel

theorem Current.of_decided {s : RadarState} {e : Nat} {call : EvalCall} {case : FundingRadarCase} {v : Verdict}
    (hk : s.evaluations e = some ⟨call, .decided case v⟩)
    (hrows : ∀ row ∈ s.db.cases, row.stage = case.stage ∨ (row.stage = .preparation ∧ written v = some .deployed)) :
    Current s (.write e) := by
  intro call' case' v' stage hk' hw row hrow _
  obtain ⟨-, hphase⟩ := Evaluation.mk.inj (Option.some.inj (hk.symm.trans hk'))
  obtain ⟨rfl, rfl⟩ := Phase.decided.inj hphase
  obtain hread | ⟨hpreparation, hdeployed⟩ := hrows row hrow
  · exact Or.inl hread
  · exact Or.inr (Or.inr ⟨hpreparation, Option.some.inj (hw.symm.trans hdeployed)⟩)

/-- Both evaluations fetch the case before the first one promotes it. -/
def bothFetched : List Event :=
  [.call 0 (evaluationAt 1), .call 1 (evaluationAt 2), .fetch 0, .fetch 1, .read 0, .write 0]

/-- The second evaluation reads the deployment, and writes it over the promotion. -/
def deployedThen : List Event :=
  [.statement (.recordEvent 1 "deployment" 2 ⟨some "mint", none⟩), .read 1, .write 1]

theorem evaluateRadarCase_stages_promoted : ∃ t u,
    Run CurrentStep idleState bothFetched t ∧ Run CurrentStep t deployedThen u ∧ Ordered t.db u.db ∧
      t.db.cases.map CaseRow.stage = [.preparation] ∧ u.db.cases.map CaseRow.stage = [.deployed] := by
  obtain ⟨t, u, hrun, hrest, hpreparation, hdeployed⟩ : ∃ t u,
      Run CurrentStep idleState bothFetched t ∧ Run CurrentStep t deployedThen u ∧
        t.db.cases.map CaseRow.stage = [.preparation] ∧ u.db.cases.map CaseRow.stage = [.deployed] := by
    refine ⟨_, _, ⟨_, ⟨trivial, rfl, rfl⟩, _, ⟨trivial, rfl, rfl⟩, _, ⟨trivial, step_fetch rfl fetch_mentioned⟩, _,
      ⟨trivial, step_fetch rfl fetch_later⟩, _, ⟨trivial, evaluationAt 1, fundedCase.read .solana, rfl, rfl⟩, _,
      ⟨Current.of_decided rfl (by decide +kernel), evaluationAt 1, fundedCase.read .solana, _, rfl, rfl⟩, rfl⟩,
      ⟨_, ⟨trivial, rfl⟩, _, ⟨trivial, evaluationAt 2, fundedCase.read .solana, rfl, rfl⟩, _,
      ⟨Current.of_decided rfl (by decide +kernel), evaluationAt 2, fundedCase.read .solana, _, rfl, rfl⟩, rfl⟩,
      by decide +kernel, by decide +kernel⟩
  have hidle : ∀ e, idleState.evaluations e = none := fun _ => rfl
  have hstages := evaluateRadarCase_stages hidle hrun hrest
  exact ⟨t, u, hrun, hrest, hstages.1, hpreparation, hdeployed⟩

theorem evaluateRadarCase_overwrites : ∃ t u, Run Step idleState overtaken t ∧ Step t (.write 0) u ∧
    t.db.cases.map CaseRow.stage = [.deployed] ∧ u.db.cases.map CaseRow.stage = [.preparation] ∧
      ¬ Ordered t.db u.db := by
  obtain ⟨t, u, hrun, hwrite, hdeployed, hpreparation⟩ : ∃ t u, Run Step idleState overtaken t ∧ Step t (.write 0) u ∧
      t.db.cases.map CaseRow.stage = [.deployed] ∧ u.db.cases.map CaseRow.stage = [.preparation] := by
    refine ⟨_, _, ⟨_, ⟨rfl, rfl⟩, _, step_fetch rfl fetch_mentioned, _,
      ⟨evaluationAt 1, fundedCase.read .solana, rfl, rfl⟩, _, rfl, _, ⟨rfl, rfl⟩, _, step_fetch rfl fetch_linked, _,
      ⟨evaluationAt 2, fundedCase.read .solana, rfl, rfl⟩, _,
        ⟨evaluationAt 2, fundedCase.read .solana, _, rfl, rfl⟩, rfl⟩,
      ⟨evaluationAt 1, fundedCase.read .solana, _, rfl, rfl⟩, by decide +kernel, by decide +kernel⟩
  refine ⟨t, u, hrun, hwrite, hdeployed, hpreparation, fun ho => ?_⟩
  have hterminal : ∀ row ∈ t.db.cases, row.stage = .deployed := by
    intro row hrow
    have hmem : row.stage ∈ t.db.cases.map CaseRow.stage := List.mem_map_of_mem hrow
    rw [hdeployed] at hmem
    exact List.mem_singleton.mp hmem
  obtain ⟨row, hrow⟩ : ∃ row, row ∈ t.db.cases := by
    apply List.exists_mem_of_ne_nil
    intro hnil
    rw [hnil] at hdeployed
    cases hdeployed
  obtain ⟨row', hrow', -, -, hmoves⟩ := ho row hrow
  have hmem : row'.stage ∈ u.db.cases.map CaseRow.stage := List.mem_map_of_mem hrow'
  rw [hpreparation, List.mem_singleton, hmoves.of_terminal (Or.inl (hterminal row hrow)), hterminal row hrow] at hmem
  cases hmem

end WhaleIntelligence.Radar.Order
