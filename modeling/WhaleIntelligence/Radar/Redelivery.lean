import Mathlib.Data.Finset.Insert
import WhaleIntelligence.Radar.View

/- A funding event that is delivered more than once.

   A delivery to a case that is there records the event once more, which changes
   nothing of the set of its evidence (`deliver_again`). But the delivery that opens a
   case records it as the first funding, and the next one as an additional one, so that
   one transaction counts as two kinds, and two kinds can be enough (`promote_alone`). -/
namespace WhaleIntelligence.Radar
open WhaleIntelligence Query

/-! ## Deliveries -/

inductive IngestCall where
  | tick (dbNow : DateTime)
  | ingest
  | evaluate (now : DateTime)
  deriving DecidableEq, Repr

/-- An event with everything it is ingested with. -/
structure Delivery where
  workspaceId : Int
  event : FundingEvent
  config : FundingRadarConfig
  percentileThresholdSol : Option Rat
  deriving DecidableEq, Repr

def Delivery.fund (d : Delivery) (db : RadarDb) : RadarDb × Except (Abort String) (Option FundingRadarCase) :=
  ingestFundingEvent db d.workspaceId d.event d.config d.percentileThresholdSol

def Delivery.ingest (d : Delivery) (db : RadarDb) : RadarDb := (d.fund db).1

def Delivery.evaluate (d : Delivery) (now : DateTime) (db : RadarDb) : RadarDb :=
  (evaluateRadarCase db d.workspaceId d.event.chain d.event.toAddress now d.config).1

def Delivery.call (d : Delivery) (db : RadarDb) : IngestCall → RadarDb
  | .tick dbNow => { db with dbNow := dbNow }
  | .ingest => d.ingest db
  | .evaluate now => d.evaluate now db

def Delivery.calls (d : Delivery) (db : RadarDb) (s : List IngestCall) : RadarDb := s.foldl d.call db

def Delivery.fetch (d : Delivery) (db : RadarDb) : Option FundingRadarCase :=
  fetchCase db d.workspaceId d.event.chain d.event.toAddress

def Delivery.view (d : Delivery) (db : RadarDb) : Option CaseView :=
  caseView db d.workspaceId d.event.chain d.event.toAddress

/-- The schedule with every delivery but the first left out. -/
def onlyOnce : List IngestCall → List IngestCall
  | [] => []
  | .ingest :: s => .ingest :: s.filter (· ≠ .ingest)
  | c :: s => c :: onlyOnce s

/-- The stage, the confidence and the kinds of evidence of the recipient's case. -/
def Delivery.outcome (d : Delivery) (db : RadarDb) : Option (RadarStage × Nat × Finset String) :=
  (d.view db).map fun v => (v.case.stage, v.case.confidence, (distinctKinds v.events).toFinset)

/-- The recipient has no case, or a funded one with no evidence but the funding by the
event's transaction. -/
def Delivery.OnlyEvidence (d : Delivery) (db : RadarDb) : Prop :=
  ∀ case, d.fetch db = some case → case.stage = .funded ∧ ∀ e ∈ eventsOf db case.id,
    e.evidence.signature = some d.event.signature ∧
      (e.eventKind = "first_funding" ∨ e.eventKind = "additional_funding")

/-- The event is ingested once however often it is delivered: the deliveries after the
first make no difference to the outcome, whichever evaluations come in between, and a
case does not get to `preparation` on its transaction alone. -/
def Delivery.Idempotent (d : Delivery) (db : RadarDb) : Prop :=
  (∀ s, .ingest ∈ s → (∀ now, .evaluate now ∈ s → d.event.observedAt ≤ now) →
    d.outcome (d.calls db s) = d.outcome (d.calls db (onlyOnce s))) ∧
  (d.OnlyEvidence db → ∀ s, (∀ now, .evaluate now ∈ s → d.event.observedAt ≤ now) →
    ∀ case, d.fetch (d.calls db s) = some case → case.stage ≠ .preparation)

/-- The event comes to the case of its recipient: its observation can be stored, it passes
the guards, and its window ends within the range of time. -/
def Delivery.reaches (d : Delivery) : Bool :=
  d.event.observable && opensCases d.event d.config d.percentileThresholdSol &&
    decide (d.event.windowEnds d.config ≤ maxUtc)

/-- The event comes to a recipient without a case, and its amount can be stored with one. -/
def Delivery.OpensCase (d : Delivery) (db : RadarDb) : Prop :=
  d.reaches = true ∧ fitsNumeric 30 9 d.event.nativeAmount = true ∧ d.fetch db = none

/-- The evidence of another delivery. -/
def Delivery.again (d : Delivery) (caseId : Int) : CaseEvent :=
  ⟨caseId, "additional_funding", d.event.observedAt, d.event.evidence⟩

/-- The evidence of a case with another delivery. -/
def Delivery.gathered (d : Delivery) (db : RadarDb) (id : Int) : List CaseEvent :=
  eventsOf db id ++ if d.reaches then [d.again id] else []

/-- The case has no evidence but the one transaction, which is enough kinds by the end of
its window. -/
def Delivery.Promotes (d : Delivery) (db : RadarDb) : Prop :=
  d.OnlyEvidence db ∧ ∃ case, d.fetch db = some case ∧ d.event.observedAt ≤ case.deployWindowEndsAt ∧
    sufficient d.config (evidenceRows (d.gathered db case.id) case.id case.deployWindowEndsAt) = true

/-! ## What a delivery does before it comes to the case -/

def Delivery.storeWallets (d : Delivery) (db : RadarDb) : RadarDb :=
  upsertWallet (upsertWallet (storeFundingObservation db d.event).1 d.event.chain.asStr d.event.toAddress
    d.event.observedAt "funding_radar") d.event.chain.asStr d.event.fromAddress d.event.observedAt "funding_radar"

/-- The fan-out that a delivery would write. -/
def Delivery.fanout (d : Delivery) (db : RadarDb) : Nat :=
  asU32 (max (asI32 (countFreshChildren db d.event.chain d.event.toAddress d.config)) 0)

/-- The observation and both wallets are there. -/
structure Delivery.Stored (d : Delivery) (db : RadarDb) : Prop where
  observation : db.observations.any (fun o => o.key == d.event.observation.key) = true
  recipient : db.wallets.any (WalletRow.isOf · d.event.chain.asStr d.event.toAddress) = true
  source : db.wallets.any (WalletRow.isOf · d.event.chain.asStr d.event.fromAddress) = true

section
variable {d : Delivery} {db db' : RadarDb} {chain address source : String} {seenAt : DateTime} {v v' : CaseView}

/-- An upsert keeps what is asked of the wallets but for when they were last seen. -/
theorem upsertWallet_any {p : WalletRow → Bool} (hp : ∀ w w' : WalletRow, w'.chain = w.chain → w'.address = w.address →
    w'.firstSeen = w.firstSeen → p w' = p w) (h : db.wallets.any p = true) :
    (upsertWallet db chain address seenAt source).wallets.any p = true := by
  rw [List.any_eq_true] at h ⊢
  obtain ⟨w, hw, hpw⟩ := h
  rw [upsertWallet]
  split
  · refine ⟨_, List.mem_map_of_mem hw, ?_⟩
    split
    · exact (hp w { w with lastSeen := max w.lastSeen seenAt, source := source } rfl rfl rfl).trans hpw
    · exact hpw
  · exact ⟨w, List.mem_append_left _ hw, hpw⟩

theorem isOf_self : (upsertWallet db chain address seenAt source).wallets.any
    (WalletRow.isOf · chain address) = true := by
  by_cases h : db.wallets.any (WalletRow.isOf · chain address) = true
  · exact upsertWallet_any (fun w w' hc ha _ => by rw [WalletRow.isOf, WalletRow.isOf, hc, ha]) h
  · rw [upsertWallet, if_neg h]
    simp [WalletRow.isOf]

theorem upsertWallet_present {p : WalletRow → Bool} (hp : ∀ w w' : WalletRow, w'.chain = w.chain →
    w'.address = w.address → w'.firstSeen = w.firstSeen → p w' = p w)
    (h : db.wallets.any (WalletRow.isOf · chain address) = true) :
    (upsertWallet db chain address seenAt source).wallets.any p = db.wallets.any p := by
  rw [upsertWallet, if_pos h]
  show (db.wallets.map _).any p = _
  rw [List.any_map]
  congr 1
  funext w
  rw [Function.comp_apply]
  split
  · exact hp w _ rfl rfl rfl
  · rfl

/-- A wallet that is there is not seen for the first time. -/
theorem upsertWallet_count {kind : ChainKind} {recipient : String} {config : FundingRadarConfig}
    (h : db.wallets.any (WalletRow.isOf · chain address) = true) :
    countFreshChildren (upsertWallet db chain address seenAt source) kind recipient config =
      countFreshChildren db kind recipient config := by
  rw [countFreshChildren, countFreshChildren, upsertWallet_frame.2.2]
  congr 3
  refine List.filter_congr fun o _ => ?_
  rw [upsertWallet_present (fun w w' hc ha hf => by rw [WalletRow.isOf, WalletRow.isOf, hc, ha, hf]) h]

theorem count_congr {kind : ChainKind} {recipient : String} {config : FundingRadarConfig}
    (ho : db'.observations = db.observations) (hw : db'.wallets = db.wallets) :
    countFreshChildren db' kind recipient config = countFreshChildren db kind recipient config := by
  rw [countFreshChildren, countFreshChildren, ho, hw]

theorem stored_storeWallets : d.Stored (d.storeWallets db) := by
  refine ⟨?_, ?_, isOf_self⟩
  · rw [Delivery.storeWallets, upsertWallet_frame.2.2, upsertWallet_frame.2.2, storeFundingObservation]
    split
    · assumption
    · simp
  · exact upsertWallet_any (fun w w' hc ha _ => by rw [WalletRow.isOf, WalletRow.isOf, hc, ha]) isOf_self

/-- What is stored already does not change the fan-out. -/
theorem Delivery.Stored.fanout (h : d.Stored db) : d.fanout (d.storeWallets db) = d.fanout db := by
  have hstore : storeFundingObservation db d.event = (db, false) := if_pos h.observation
  rw [Delivery.fanout, Delivery.fanout, Delivery.storeWallets, hstore]
  rw [upsertWallet_count, upsertWallet_count h.recipient]
  exact upsertWallet_any (fun w w' hc ha _ => by rw [WalletRow.isOf, WalletRow.isOf, hc, ha]) h.source

theorem Delivery.Stored.congr (h : d.Stored db) (ho : db'.observations = db.observations)
    (hw : db'.wallets = db.wallets) : d.Stored db' :=
  ⟨ho ▸ h.observation, hw ▸ h.recipient, hw ▸ h.source⟩

/-- Nothing of a case changes before it. -/
theorem view_congr (hc : db'.cases = db.cases) (he : db'.events = db.events) : d.view db' = d.view db ∧
    d.fetch db' = d.fetch db := by
  have hfetch : d.fetch db' = d.fetch db := by
    rw [Delivery.fetch, Delivery.fetch, fetchCase, fetchCase, caseRow, caseRow, hc]
  refine ⟨?_, hfetch⟩
  rw [Delivery.view, Delivery.view, caseView, caseView]
  show Option.map _ (d.fetch db') = Option.map _ (d.fetch db)
  rw [hfetch]
  congr 1
  funext case
  rw [eventsOf, eventsOf, he]

theorem view_storeWallets : d.view (d.storeWallets db) = d.view db ∧ d.fetch (d.storeWallets db) = d.fetch db := by
  apply view_congr
  · rw [Delivery.storeWallets, upsertWallet_frame.1, upsertWallet_frame.1, storeFundingObservation_frame.1]
  · rw [Delivery.storeWallets, upsertWallet_frame.2.1, upsertWallet_frame.2.1, storeFundingObservation_frame.2.1]

/-! ## What a delivery does to the case -/

theorem reaches_iff : d.reaches = true ↔ d.event.observable = true ∧
    opensCases d.event d.config d.percentileThresholdSol = true ∧ d.event.windowEnds d.config ≤ maxUtc := by
  rw [Delivery.reaches, Bool.and_eq_true, Bool.and_eq_true, decide_eq_true_eq, and_assoc]

/-- The call on an event that comes to the case of its recipient. -/
theorem fund_reaches (h : d.reaches = true) :
    d.fund db = fundCase (d.storeWallets db) d.workspaceId d.event d.config := by
  obtain ⟨hobs, hopens, hwindow⟩ := reaches_iff.mp h
  rw [Delivery.fund, ingestFundingEvent, if_pos hobs]
  simp only [if_pos hopens, if_pos hwindow]
  rfl

/-- An event that does not come to a case: the call is over before, after the observation
or after the wallets. -/
theorem ingest_skipped (h : d.reaches = false) :
    d.view (d.ingest db) = d.view db ∧ d.fetch (d.ingest db) = d.fetch db := by
  rw [Delivery.ingest, Delivery.fund, ingestFundingEvent]
  by_cases hobs : d.event.observable = true
  · rw [if_pos hobs]
    by_cases hopens : opensCases d.event d.config d.percentileThresholdSol = true
    · have hlate : ¬ d.event.windowEnds d.config ≤ maxUtc := fun hwindow =>
        Bool.noConfusion (h.symm.trans (reaches_iff.mpr ⟨hobs, hopens, hwindow⟩))
      simp only [if_pos hopens, if_neg hlate]
      exact view_storeWallets
    · simp only [if_neg hopens]
      exact view_congr storeFundingObservation_frame.1 storeFundingObservation_frame.2.1
  · rw [if_neg hobs]
    exact ⟨rfl, rfl⟩

/-- Where the recipient has no case and the amount cannot be stored with one, it gets none. -/
theorem ingest_refused (hnative : ¬ fitsNumeric 30 9 d.event.nativeAmount = true) (hnone : d.fetch db = none) :
    d.fetch (d.ingest db) = none := by
  cases h : d.reaches with
  | false => exact (ingest_skipped h).2.trans hnone
  | true =>
    have hstored : d.fetch (d.storeWallets db) = none := view_storeWallets.2.trans hnone
    rw [Delivery.ingest, fund_reaches h, fundCase, show fetchCase _ _ _ _ = none from hstored]
    simp only [openFundedCase, if_neg hnative]
    exact hstored

/-- A second case of a recipient is refused. -/
theorem openCase_refused {case : FundingRadarCase} (h : d.fetch db = some case) :
    (openCase db d.workspaceId d.event d.config).1 = db := by
  obtain ⟨row, hrow, -, -⟩ := caseRow_of_fetchCase h
  have hkey : (d.event.newCase d.workspaceId d.config db.dbNow).key ∈ db.cases.map CaseRow.key :=
    List.mem_map.mpr ⟨row, (caseRow_mem hrow).1, (caseRow_mem hrow).2⟩
  rw [openCase, insertCase, dif_pos hkey]

theorem openFundedCase_refused {case : FundingRadarCase} (h : d.fetch db = some case) :
    (openFundedCase db d.workspaceId d.event d.config).1 = db := by
  rw [openFundedCase]
  split
  · exact openCase_refused h
  · rfl

/-- Another funding is one more event, and counts the fan-out again. -/
theorem additionalFunding_view {case : FundingRadarCase} (h : d.fetch db = some case) :
    d.view (additionalFunding db d.workspaceId d.event d.config case.id).1 =
      some ⟨case.untimed.withFanout (d.fanout db), eventsOf db case.id ++ [d.again case.id]⟩ ∧
    (additionalFunding db d.workspaceId d.event d.config case.id).1.observations = db.observations ∧
    (additionalFunding db d.workspaceId d.event d.config case.id).1.wallets = db.wallets := by
  obtain ⟨after, hok, hview, ho, hw⟩ := recordCaseEvent_ok h "additional_funding" d.event.observedAt d.event.evidence
  rw [additionalFunding, hok]
  refine ⟨?_, ho, hw⟩
  show caseView (updateCaseFanout after case.id _) _ _ _ = _
  rw [Delivery.fanout, ← count_congr ho hw]
  exact caseView_fanout hview _

/-- The first funding of a recipient opens its case, with one event. -/
theorem openCase_view (h : d.fetch db = none) : ∃ case,
    d.view (openCase db d.workspaceId d.event d.config).1 =
      some ⟨case, [⟨case.id, "first_funding", d.event.observedAt, d.event.evidence⟩]⟩ ∧ case.stage = .funded := by
  obtain ⟨inserted, case, hinserted, hfetch, hid, hstage, hevents⟩ :=
    insertCase_ok (d.event.newCase d.workspaceId d.config db.dbNow) h rfl
  obtain ⟨after, hok, hview, -⟩ := recordCaseEvent_ok hfetch "first_funding" d.event.observedAt d.event.evidence
  refine ⟨case.untimed, ?_, hstage⟩
  rw [hid] at hok
  rw [openCase, hinserted]
  simp only [hok]
  rw [hevents, List.nil_append] at hview
  exact hview

/-- A delivery to a case that is there. -/
theorem ingest_view (h : d.reaches = true) (hv : d.view db = some v) :
    d.view (d.ingest db) = some (if v.case.stage = .dismissed then v else
      ⟨v.case.withFanout (d.fanout (d.storeWallets db)), v.events ++ [d.again v.case.id]⟩) ∧
    (d.ingest db).observations = (d.storeWallets db).observations ∧
    (d.ingest db).wallets = (d.storeWallets db).wallets := by
  have hv' : d.view (d.storeWallets db) = some v := view_storeWallets.1.trans hv
  obtain ⟨case, hcase, huntimed, hevents⟩ := fetchCase_of_view hv'
  have hid : v.case.id = case.id := by rw [← huntimed]; rfl
  have hstage : v.case.stage = case.stage := by rw [← huntimed]; rfl
  rw [Delivery.ingest, fund_reaches h, fundCase, show fetchCase _ _ _ _ = some case from hcase]
  simp only
  rw [hstage]
  by_cases hdismissed : case.stage = .dismissed
  · rw [if_neg (not_not_intro hdismissed), if_pos hdismissed, openFundedCase_refused hcase]
    exact ⟨hv', rfl, rfl⟩
  · rw [if_pos hdismissed, if_neg hdismissed, hid, ← huntimed, ← hevents]
    exact additionalFunding_view hcase

/-! ## Redelivery -/

/-- The two states have the same case with the same set of evidence. -/
def Delivery.Same (d : Delivery) (db db' : RadarDb) : Prop :=
  ∃ v v', d.view db = some v ∧ d.view db' = some v' ∧ v.case = v'.case ∧ ∀ e, e ∈ v.events ↔ e ∈ v'.events

/-- The event has come to the recipient's case. -/
structure Delivery.Delivered (d : Delivery) (db : RadarDb) : Prop where
  stored : d.Stored db
  counted : ∃ v, d.view db = some v ∧
    (v.case.stage = .dismissed ∨ d.again v.case.id ∈ v.events ∧ v.case.fanoutCount = d.fanout db)

theorem Delivery.Same.refl (h : d.view db = some v) : d.Same db db := ⟨v, v, h, h, rfl, fun _ => Iff.rfl⟩

theorem view_evaluate (h : d.view db = some v) (now : DateTime) :
    d.view (d.evaluate now db) = some (v.evaluate now d.config) := by
  rw [Delivery.view] at h
  rw [Delivery.view, Delivery.evaluate, caseView_evaluate, h, Option.map_some]

theorem Delivery.Same.evaluate (h : d.Same db db') (now : DateTime) :
    d.Same (d.evaluate now db) (d.evaluate now db') := by
  obtain ⟨v, v', hv, hv', hcase, hevents⟩ := h
  exact ⟨_, _, view_evaluate hv now, view_evaluate hv' now, evaluate_congr hcase hevents, hevents⟩

theorem Delivery.Delivered.evaluate (h : d.Delivered db) (now : DateTime) : d.Delivered (d.evaluate now db) := by
  obtain ⟨hstored, v, hv, hcounted⟩ := h
  obtain ⟨ho, hw⟩ : (d.evaluate now db).observations = db.observations ∧ (d.evaluate now db).wallets = db.wallets :=
    evaluate_frame
  refine ⟨hstored.congr ho hw, _, view_evaluate hv now, ?_⟩
  rcases hcounted with hdismissed | ⟨hagain, hfanout⟩
  · rw [evaluate_dismissed hdismissed]
    exact Or.inl hdismissed
  · refine Or.inr ⟨?_, ?_⟩
    · rw [show (v.evaluate now d.config).case.id = v.case.id from apply_id]
      exact hagain
    · rw [show (v.evaluate now d.config).case.fanoutCount = v.case.fanoutCount from apply_fanoutCount, hfanout,
        Delivery.fanout, Delivery.fanout, count_congr ho hw]

/-- After a delivery to a case the event has come to it. -/
theorem deliver_first (h : d.reaches = true) (hv : d.view db = some v) :
    d.Delivered (d.ingest db) := by
  obtain ⟨hview, ho, hw⟩ := ingest_view h hv
  refine ⟨stored_storeWallets.congr ho hw, _, hview, ?_⟩
  split
  · rename_i hdismissed
    exact Or.inl hdismissed
  · refine Or.inr ⟨?_, ?_⟩
    · rw [withFanout_id]
      exact List.mem_append_right _ List.mem_cons_self
    · rw [withFanout_fanoutCount, Delivery.fanout, Delivery.fanout, count_congr ho hw]

/-- A delivery of what has come to the case already changes nothing. -/
theorem deliver_again (h : d.reaches = true) (hd : d.Delivered db)
    (hs : d.Same db db') : d.Same (d.ingest db) db' := by
  obtain ⟨hstored, w, hw, hcounted⟩ := hd
  obtain ⟨v, v', hv, hv', hcase, hevents⟩ := hs
  obtain rfl := Option.some.inj (hw.symm.trans hv)
  obtain ⟨hview, -, -⟩ := ingest_view h hv
  refine ⟨_, v', hview, hv', ?_⟩
  split
  · exact ⟨hcase, hevents⟩
  · rename_i hstage
    obtain ⟨hagain, hfanout⟩ := hcounted.resolve_left hstage
    refine ⟨?_, fun e => ?_⟩
    · rw [hstored.fanout, ← hfanout, withFanout_self, hcase]
    · rw [← hevents, List.mem_append, List.mem_singleton]
      exact ⟨fun he => he.elim id fun heq => heq ▸ hagain, Or.inl⟩

/-! ## Schedules -/

variable {s : List IngestCall}

theorem Delivery.Same.tick (h : d.Same db db') (t : DateTime) :
    d.Same { db with dbNow := t } { db' with dbNow := t } := h

theorem Delivery.Delivered.tick (h : d.Delivered db) (t : DateTime) : d.Delivered { db with dbNow := t } :=
  ⟨h.stored.congr rfl rfl, h.counted⟩

theorem Delivery.Same.outcome (h : d.Same db db') : d.outcome db = d.outcome db' := by
  obtain ⟨v, v', hv, hv', hcase, hevents⟩ := h
  rw [Delivery.outcome, Delivery.outcome, hv, hv', Option.map_some, Option.map_some, hcase,
    toFinset_distinctKinds_congr hevents]

/-- Once the event has come to the case, further deliveries can be left out. -/
theorem calls_delivered (h : d.reaches = true) (hd : d.Delivered db)
    (hs : d.Same db db') : d.Same (d.calls db s) (d.calls db' (s.filter (· ≠ .ingest))) := by
  induction s generalizing db db' with
  | nil => exact hs
  | cons c s ih =>
    cases c with
    | tick t => exact ih (hd.tick t) (hs.tick t)
    | evaluate now => exact ih (hd.evaluate now) (hs.evaluate now)
    | ingest =>
      obtain ⟨v, -, hv, -⟩ := id hs
      exact ih (deliver_first h hv) (deliver_again h hd hs)

/-- A recipient with a case is told of the event once. -/
theorem once_of_case (h : d.reaches = true) (hv : d.view db = some v)
    (hs : .ingest ∈ s) : d.outcome (d.calls db s) = d.outcome (d.calls db (onlyOnce s)) := by
  induction s generalizing db v with
  | nil => cases hs
  | cons c s ih =>
    cases c with
    | tick t => exact ih hv (List.mem_of_ne_of_mem (by simp) hs)
    | evaluate now => exact ih (view_evaluate hv now) (List.mem_of_ne_of_mem (by simp) hs)
    | ingest =>
      have hsame : d.Same (d.ingest db) (d.ingest db) := .refl (ingest_view h hv).1
      exact (calls_delivered h (deliver_first h hv) hsame).outcome

/-- What a call does to the view when the event does not pass the guards. -/
def Delivery.viewCall (d : Delivery) (view : Option CaseView) : IngestCall → Option CaseView
  | .evaluate now => view.map (CaseView.evaluate · now d.config)
  | _ => view

theorem calls_skipped (h : d.reaches = false) :
    d.view (d.calls db s) = s.foldl d.viewCall (d.view db) := by
  induction s generalizing db with
  | nil => rfl
  | cons c s ih =>
    rw [List.foldl_cons]
    show d.view (d.calls (d.call db c) s) = _
    rw [ih]
    cases c with
    | tick t => rfl
    | ingest => exact congrArg (s.foldl d.viewCall) (ingest_skipped h).1
    | evaluate now => exact congrArg (s.foldl d.viewCall) caseView_evaluate

theorem foldl_viewCall_filter {view : Option CaseView} :
    (s.filter (· ≠ .ingest)).foldl d.viewCall view = s.foldl d.viewCall view := by
  induction s generalizing view with
  | nil => rfl
  | cons c s ih => cases c <;> exact ih

theorem foldl_viewCall_onlyOnce {view : Option CaseView} :
    (onlyOnce s).foldl d.viewCall view = s.foldl d.viewCall view := by
  induction s generalizing view with
  | nil => rfl
  | cons c s ih =>
    cases c with
    | ingest => exact foldl_viewCall_filter
    | tick t => exact ih
    | evaluate now => exact ih

theorem foldl_viewCall_none : s.foldl d.viewCall none = none := by
  induction s with
  | nil => rfl
  | cons c s ih => cases c <;> exact ih

/-- A recipient that can be given no case has none after any calls. -/
theorem calls_refused (hnative : ¬ fitsNumeric 30 9 d.event.nativeAmount = true) (hnone : d.fetch db = none) :
    d.fetch (d.calls db s) = none := by
  induction s generalizing db with
  | nil => exact hnone
  | cons c s ih =>
    cases c with
    | tick t => exact ih hnone
    | ingest => exact ih (ingest_refused hnative hnone)
    | evaluate now =>
      refine ih ?_
      show d.fetch (d.evaluate now db) = none
      rw [Delivery.evaluate, evaluateRadarCase, show fetchCase _ _ _ _ = none from hnone]
      exact hnone

/-- A first delivery opens the case, and a second one is another kind of evidence. -/
theorem deliver_twice (h : d.OpensCase db) :
    d.outcome (d.calls db [.ingest, .ingest]) ≠ d.outcome (d.calls db [.ingest]) := by
  obtain ⟨hreaches, hnative, hnone⟩ := h
  have hnone' : d.fetch (d.storeWallets db) = none := view_storeWallets.2.trans hnone
  obtain ⟨case, hview, hstage⟩ := openCase_view hnone'
  have hfirst : d.view (d.ingest db) =
      some ⟨case, [⟨case.id, "first_funding", d.event.observedAt, d.event.evidence⟩]⟩ := by
    rw [Delivery.ingest, fund_reaches hreaches, fundCase, show fetchCase _ _ _ _ = none from hnone']
    simp only [openFundedCase, if_pos hnative]
    exact hview
  obtain ⟨hsecond, -⟩ := ingest_view hreaches hfirst
  rw [if_neg (by rw [hstage]; decide)] at hsecond
  show (d.view (d.ingest (d.ingest db))).map _ ≠ (d.view (d.ingest db)).map _
  rw [hfirst, hsecond, Option.map_some, Option.map_some]
  intro heq
  have hkinds := congrArg (fun o : RadarStage × Nat × Finset String => o.2.2) (Option.some.inj heq)
  have hmem : "additional_funding" ∈ (distinctKinds
    ([⟨case.id, "first_funding", d.event.observedAt, d.event.evidence⟩] ++
      [d.again case.id])).toFinset := by
    rw [List.mem_toFinset, mem_distinctKinds]
    exact ⟨d.again case.id, List.mem_append_right _ List.mem_cons_self, rfl⟩
  rw [show (distinctKinds _).toFinset = _ from hkinds, List.mem_toFinset, mem_distinctKinds] at hmem
  obtain ⟨e, he, hkind⟩ := hmem
  obtain rfl := List.mem_singleton.mp he
  exact absurd (show "first_funding" = "additional_funding" from hkind) (by decide)

/-! ## One transaction alone -/

variable {case : FundingRadarCase}

theorem view_of_none (h : d.fetch db = none) : d.view db = none := Option.map_eq_none_iff.mpr h

theorem view_of_fetch (h : d.fetch db = some case) : d.view db = some ⟨case.untimed, eventsOf db case.id⟩ := by
  rw [Delivery.view, caseView, show fetchCase _ _ _ _ = some case from h, Option.map_some]

/-- Funding is not deployment. -/
theorem gathered_showsDeployment {rows : List CaseEvent} (honly : d.OnlyEvidence db) (h : d.fetch db = some case)
    (hrows : rows ⊆ d.gathered db case.id) : showsDeployment rows = false := by
  rw [Bool.eq_false_iff]
  intro hd
  obtain ⟨e, he, hkind⟩ := mem_distinctKinds.mp (List.contains_iff_mem.mp hd)
  rcases List.mem_append.mp (hrows he) with he | he
  · rcases ((honly case h).2 e he).2 with hfirst | hagain
    · exact absurd (hfirst.symm.trans hkind) (by decide)
    · exact absurd (hagain.symm.trans hkind) (by decide)
  · split at he
    · obtain rfl := List.mem_singleton.mp he
      exact absurd (show "additional_funding" = "deployment" from hkind) (by decide)
    · cases he

/-- A delivery to a funded case gathers its evidence. -/
theorem ingest_gathered (h : d.fetch db = some case) (hfunded : case.stage = .funded) :
    ∃ n, d.view (d.ingest db) = some ⟨case.untimed.withFanout n, d.gathered db case.id⟩ := by
  rw [Delivery.gathered]
  cases hreaches : d.reaches with
  | true =>
    obtain ⟨hview, -⟩ := ingest_view hreaches (view_of_fetch h)
    have hstage : ¬ case.untimed.stage = .dismissed := by
      rw [show case.untimed.stage = case.stage from rfl, hfunded]
      decide
    rw [if_neg hstage] at hview
    exact ⟨_, hview⟩
  | false =>
    refine ⟨case.fanoutCount, ?_⟩
    rw [(ingest_skipped hreaches).1, view_of_fetch h, if_neg Bool.false_ne_true, List.append_nil]
    rfl

/-- Enough of the one transaction promotes the case at the end of its window. -/
theorem promote_alone (honly : d.OnlyEvidence db) (h : d.fetch db = some case)
    (hs : sufficient d.config (evidenceRows (d.gathered db case.id) case.id case.deployWindowEndsAt) = true) :
    ∃ after, d.fetch (d.calls db [.ingest, .evaluate case.deployWindowEndsAt]) = some after ∧
      after.stage = .preparation := by
  obtain ⟨n, hview⟩ := ingest_gathered h (honly case h).1
  obtain ⟨after, hafter, huntimed, -⟩ := fetchCase_of_view (view_evaluate hview case.deployWindowEndsAt)
  refine ⟨after, hafter, ?_⟩
  have hd : showsDeployment (evidenceRows (d.gathered db case.id) case.id case.deployWindowEndsAt) = false :=
    gathered_showsDeployment honly h (List.filter_subset_self _)
  have hstage : (CaseView.evaluate ⟨case.untimed.withFanout n, d.gathered db case.id⟩ case.deployWindowEndsAt
      d.config).case.stage = _ := evaluate_funded (honly case h).1 hd
  rw [show after.stage = after.untimed.stage from rfl, huntimed, hstage]
  exact (if_neg (lt_irrefl case.deployWindowEndsAt)).trans (if_pos hs)

/-- What holds of a case that the one transaction does not promote. -/
structure Delivery.Unpromoted (d : Delivery) (db : RadarDb) (case : FundingRadarCase) (view : CaseView) : Prop where
  stage : view.case.stage = .funded ∨ view.case.stage = .dismissed
  id : view.case.id = case.id
  window : view.case.deployWindowEndsAt = case.deployWindowEndsAt
  events : view.events ⊆ d.gathered db case.id

theorem Delivery.Unpromoted.again {start : RadarDb} (h : d.Unpromoted start case v)
    (hreaches : d.reaches = true) (n : Nat) :
    d.Unpromoted start case ⟨v.case.withFanout n, v.events ++ [d.again v.case.id]⟩ := by
  refine ⟨h.stage, h.id, h.window, List.append_subset.mpr ⟨h.events, fun e he => ?_⟩⟩
  rw [Delivery.gathered, hreaches, if_pos rfl, ← h.id]
  exact List.mem_append_right _ he

theorem Delivery.Unpromoted.ingest {start : RadarDb} (h : d.Unpromoted start case v) (hv : d.view db = some v) :
    ∃ v', d.view (d.ingest db) = some v' ∧ d.Unpromoted start case v' := by
  cases hreaches : d.reaches with
  | false => exact ⟨v, (ingest_skipped hreaches).1.trans hv, h⟩
  | true =>
    refine ⟨_, (ingest_view hreaches hv).1, ?_⟩
    split
    · exact h
    · exact h.again hreaches _

/-- Less evidence at an earlier time is not enough either. -/
theorem Delivery.Unpromoted.evaluate {start : RadarDb} (h : d.Unpromoted start case v) (honly : d.OnlyEvidence start)
    (hcase : d.fetch start = some case) (hnot : ¬ d.Promotes start) {now : DateTime} (hnow : d.event.observedAt ≤ now) :
    d.Unpromoted start case (v.evaluate now d.config) := by
  refine ⟨?_, apply_id.trans h.id, apply_deployWindowEndsAt.trans h.window, h.events⟩
  rcases h.stage with hfunded | hdismissed
  · have hd : showsDeployment (evidenceRows v.events v.case.id now) = false :=
      gathered_showsDeployment honly hcase fun e he => h.events (List.mem_of_mem_filter he)
    rw [evaluate_funded hfunded hd]
    split
    · exact Or.inr rfl
    · rename_i hlate
      rw [h.window, not_lt] at hlate
      have hrows : evidenceRows v.events v.case.id now ⊆
          evidenceRows (d.gathered start case.id) case.id case.deployWindowEndsAt := by
        intro e he
        rw [evidenceRows, h.id, List.mem_filter, Bool.and_eq_true, decide_eq_true_eq] at he
        exact List.mem_filter.mpr ⟨h.events he.1, by simp [he.2.1, he.2.2.trans hlate]⟩
      have hs : ¬ sufficient d.config (evidenceRows v.events v.case.id now) = true := fun hs =>
        hnot ⟨honly, case, hcase, hnow.trans hlate, sufficient_mono hrows hs⟩
      rw [if_neg hs]
      exact Or.inl rfl
  · rw [evaluate_dismissed hdismissed]
    exact Or.inr hdismissed

theorem calls_unpromoted {start : RadarDb} (h : d.Unpromoted start case v) (honly : d.OnlyEvidence start)
    (hcase : d.fetch start = some case) (hnot : ¬ d.Promotes start) (hv : d.view db = some v)
    (hclock : ∀ now, .evaluate now ∈ s → d.event.observedAt ≤ now) :
    ∃ v', d.view (d.calls db s) = some v' ∧ d.Unpromoted start case v' := by
  induction s generalizing db v with
  | nil => exact ⟨v, hv, h⟩
  | cons c s ih =>
    have hrest : ∀ now, .evaluate now ∈ s → d.event.observedAt ≤ now := fun now hm =>
      hclock now (List.mem_cons_of_mem _ hm)
    cases c with
    | tick t =>
      have hview : d.view { db with dbNow := t } = some v := hv
      exact ih h hview hrest
    | ingest =>
      obtain ⟨v', hv', h'⟩ := h.ingest hv
      exact ih h' hv' hrest
    | evaluate now =>
      exact ih (h.evaluate honly hcase hnot (hclock now List.mem_cons_self)) (view_evaluate hv now) hrest

/-! ## Ingesting once -/

/-- An event that opens no case makes the same of a case however often it is delivered. -/
theorem once_of_not_opens (h : ¬ d.OpensCase db) (hs : .ingest ∈ s) :
    d.outcome (d.calls db s) = d.outcome (d.calls db (onlyOnce s)) := by
  cases hreaches : d.reaches with
  | false =>
    rw [Delivery.outcome, Delivery.outcome, calls_skipped hreaches, calls_skipped hreaches, foldl_viewCall_onlyOnce]
  | true =>
    cases hfetch : d.fetch db with
    | none =>
      have hnative : ¬ fitsNumeric 30 9 d.event.nativeAmount = true := fun hfits => h ⟨hreaches, hfits, hfetch⟩
      rw [Delivery.outcome, Delivery.outcome, view_of_none (calls_refused hnative hfetch),
        view_of_none (calls_refused hnative hfetch)]
    | some case => exact once_of_case hreaches (view_of_fetch hfetch) hs

theorem not_preparation (h : ¬ d.OpensCase db) (hnot : ¬ d.Promotes db) (honly : d.OnlyEvidence db)
    (hclock : ∀ now, .evaluate now ∈ s → d.event.observedAt ≤ now) {after : FundingRadarCase}
    (hafter : d.fetch (d.calls db s) = some after) : after.stage ≠ .preparation := by
  cases hfetch : d.fetch db with
  | none =>
    have hnone : d.fetch (d.calls db s) = none := by
      by_cases hnative : fitsNumeric 30 9 d.event.nativeAmount = true
      · have hskipped : d.reaches = false := Bool.eq_false_iff.mpr fun hreaches => h ⟨hreaches, hnative, hfetch⟩
        have hview : d.view (d.calls db s) = none := by
          rw [calls_skipped hskipped, view_of_none hfetch, foldl_viewCall_none]
        exact Option.map_eq_none_iff.mp hview
      · exact calls_refused hnative hfetch
    rw [hnone] at hafter
    cases hafter
  | some case =>
    have hstart : d.Unpromoted db case ⟨case.untimed, eventsOf db case.id⟩ :=
      ⟨Or.inl (honly case hfetch).1, rfl, rfl, List.subset_append_left _ _⟩
    obtain ⟨v, hv, hu⟩ := calls_unpromoted hstart honly hfetch hnot (view_of_fetch hfetch) hclock
    have hcase : v.case = after.untimed := by
      rw [view_of_fetch hafter] at hv
      exact congrArg CaseView.case (Option.some.inj hv).symm
    rw [show after.stage = after.untimed.stage from rfl, ← hcase]
    rcases hu.stage with hstage | hstage <;> rw [hstage] <;> decide

end

/-! ## A transfer delivered twice -/

/-- A confirmed transfer of 150 SOL to a wallet that is a minute old. -/
def transfer : FundingEvent where
  chain := .solana
  signature := "tx"
  slot := none
  observedAt := 0
  commitment := .confirmed
  fromAddress := "source"
  toAddress := "wallet"
  assetKind := .native
  mint := "native"
  rawAmount := "150000000000"
  nativeAmount := 150
  amountUsd := some 30000
  nativeUsdPrice := some 200
  recipientAgeSeconds := some 60
  sourceKind := none

def transferDelivery : Delivery := ⟨1, transfer, defaultConfig, none⟩

end WhaleIntelligence.Radar
