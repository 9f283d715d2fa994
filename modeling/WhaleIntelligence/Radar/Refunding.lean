import WhaleIntelligence.Radar.Redelivery

/- A wallet that is funded again.

   A qualifying event comes to a case that is not dismissed (`reopens_iff`) exactly where
   the recipient has no dismissed case and neither the precision of a column nor the range
   of time stops it: the branch that opens another case for a dismissed one is refused by
   the unique index, after the observation has been stored. -/
namespace WhaleIntelligence.Radar
open WhaleIntelligence Query

/-! ## What the call should do -/

namespace Delivery

/-- The key of the recipient's case. -/
def caseKey (d : Delivery) : Int × String × String := (d.workspaceId, d.event.chain.asStr, d.event.toAddress)

/-- The call answers the recipient's case, which is not dismissed. It is the only case
under its key, and the events of the case before the call are still its first events. -/
def Reopens (d : Delivery) (db : RadarDb) : Prop :=
  ∃ case, (d.fund db).2 = .ok (some case) ∧ case.chain = d.event.chain ∧ case.recipient = d.event.toAddress ∧
    case.stage ≠ .dismissed ∧
    ((d.fund db).1.cases.filter fun c => c.key = d.caseKey).map CaseRow.id = [case.id] ∧
    ∀ before, d.fetch db = some before → eventsOf db before.id <+: eventsOf (d.fund db).1 case.id

/-- The recipient has a case, and it is dismissed. -/
def IsDismissed (d : Delivery) (db : RadarDb) : Prop := ∃ case, d.fetch db = some case ∧ case.stage = .dismissed

/-- The values of the event can be stored, those of a new case where one is opened. -/
structure Fits (d : Delivery) (db : RadarDb) : Prop where
  observation : d.event.observable = true
  window : d.event.windowEnds d.config ≤ maxUtc
  native : d.fetch db = none → fitsNumeric 30 9 d.event.nativeAmount = true

end Delivery

section
variable {d : Delivery} {db : RadarDb} {case : FundingRadarCase} {v : CaseView}

/-! ## How the call ends -/

/-- An event that passes the guards and can be stored comes to the case of its recipient. -/
theorem fund_eq (hopens : opensCases d.event d.config d.percentileThresholdSol = true)
    (hobs : d.event.observable = true) (hwindow : d.event.windowEnds d.config ≤ maxUtc) (db : RadarDb) :
    d.fund db = match d.fetch db with
      | some case =>
        if case.stage ≠ .dismissed then
          returned (additionalFunding (d.storeWallets db) d.workspaceId d.event d.config case.id)
        else openFundedCase (d.storeWallets db) d.workspaceId d.event d.config
      | none => openFundedCase (d.storeWallets db) d.workspaceId d.event d.config := by
  have hfetch : d.fetch (d.storeWallets db) = d.fetch db := view_storeWallets.2
  rw [← hfetch, fund_reaches (reaches_iff.mpr ⟨hobs, hopens, hwindow⟩)]
  rfl

theorem fund_unobservable (hobs : ¬ d.event.observable = true) :
    (d.fund db).2 = .error (.error numericOverflow) := by rw [Delivery.fund, ingestFundingEvent, if_neg hobs]

theorem fund_panics (hopens : opensCases d.event d.config d.percentileThresholdSol = true)
    (hobs : d.event.observable = true) (hwindow : ¬ d.event.windowEnds d.config ≤ maxUtc) :
    (d.fund db).2 = .error .panic := by
  rw [Delivery.fund, ingestFundingEvent, if_pos hobs]
  simp only [hopens, hwindow, if_true, if_false]

/-- A case that was dismissed is still in the way of another one. -/
theorem openCase_error (h : d.fetch db = some case) :
    (openCase db d.workspaceId d.event d.config).2 =
      .error "duplicate key value violates unique constraint \"funding_radar_cases_tenant_uidx\"" := by
  obtain ⟨row, hrow, -, -⟩ := caseRow_of_fetchCase h
  have hkey : (d.event.newCase d.workspaceId d.config db.dbNow).key ∈ db.cases.map CaseRow.key :=
    List.mem_map.mpr ⟨row, (caseRow_mem hrow).1, (caseRow_mem hrow).2⟩
  rw [openCase, insertCase, dif_pos hkey]

theorem openFundedCase_error (h : d.fetch db = some case) :
    ∃ e, (openFundedCase db d.workspaceId d.event d.config).2 = .error e := by
  rw [openFundedCase]
  split
  · rw [returned, openCase_error h]
    exact ⟨_, rfl⟩
  · exact ⟨_, rfl⟩

/-- Another funding answers the case as it is after it. -/
theorem additionalFunding_answer (h : d.fetch db = some case) :
    (additionalFunding db d.workspaceId d.event d.config case.id).2 =
      .ok (d.fetch (additionalFunding db d.workspaceId d.event d.config case.id).1) := by
  obtain ⟨after, hok, -⟩ := recordCaseEvent_ok h "additional_funding" d.event.observedAt d.event.evidence
  rw [additionalFunding, hok]
  rfl

/-- A first funding answers the case that it opened. -/
theorem openCase_answer (h : d.fetch db = none) :
    (openCase db d.workspaceId d.event d.config).2 =
      .ok (d.fetch (openCase db d.workspaceId d.event d.config).1) := by
  obtain ⟨inserted, case, hinserted, hfetch, hid, -⟩ :=
    insertCase_ok (d.event.newCase d.workspaceId d.config db.dbNow) h rfl
  obtain ⟨after, hok, -⟩ := recordCaseEvent_ok hfetch "first_funding" d.event.observedAt d.event.evidence
  rw [hid] at hok
  rw [openCase, hinserted]
  simp only [hok]
  rfl

/-! ## The case after the call -/

/-- What is read for a recipient is the one row under its key. -/
theorem fetch_row (h : d.fetch db = some case) : case.chain = d.event.chain ∧ case.recipient = d.event.toAddress ∧
    (db.cases.filter fun c => c.key = d.caseKey).map CaseRow.id = [case.id] := by
  obtain ⟨row, hrow, hread, hid⟩ := caseRow_of_fetchCase h
  obtain ⟨hmem, hkey⟩ := caseRow_mem hrow
  have hchain : row.chain = d.event.chain.asStr := congrArg (fun k : Int × String × String => k.2.1) hkey
  have hrecipient : row.recipient = d.event.toAddress := congrArg (fun k : Int × String × String => k.2.2) hkey
  refine ⟨?_, ?_, ?_⟩
  · rw [← hread]
    simp only [CaseRow.read, hchain, ChainKind.parse_asStr, Option.getD_some]
  · rw [← hread]
    simp only [CaseRow.read, hrecipient]
  · have hone := filter_unique db.keys_nodup hmem
    rw [hkey] at hone
    rw [Delivery.caseKey, hone, List.map_singleton, hid]

theorem eventsOf_storeWallets {id : Int} : eventsOf (d.storeWallets db) id = eventsOf db id := by
  rw [eventsOf, eventsOf, Delivery.storeWallets, upsertWallet_frame.2.1, upsertWallet_frame.2.1,
    storeFundingObservation_frame.2.1]

theorem withFanout_stage (case : FundingRadarCase) (n : Nat) : (case.untimed.withFanout n).stage = case.stage := rfl

/-- A call that answers the recipient's case, with more events than before. -/
theorem reopens_of_view {result : RadarDb × Except String (Option FundingRadarCase)}
    (hfund : d.fund db = returned result)
    (hanswer : result.2 = .ok (d.fetch result.1)) (hv : d.view result.1 = some v) (hstage : v.case.stage ≠ .dismissed)
    (hevents : ∀ before, d.fetch db = some before → eventsOf db before.id <+: v.events) : d.Reopens db := by
  obtain ⟨case, hcase, huntimed, heventsOf⟩ := fetchCase_of_view hv
  obtain ⟨hchain, hrecipient, hrow⟩ := fetch_row hcase
  have hafter : (d.fund db).1 = result.1 := by rw [hfund, returned]
  rw [Delivery.Reopens, hafter]
  refine ⟨case, ?_, hchain, hrecipient, ?_, hrow, ?_⟩
  · rw [hfund, returned, hanswer]
    exact congrArg Except.ok hcase
  · rw [← huntimed] at hstage
    exact hstage
  · intro before hbefore
    rw [heventsOf]
    exact hevents before hbefore

/-- A case that is not dismissed gets one more event. -/
theorem reopens_of_case (hopens : opensCases d.event d.config d.percentileThresholdSol = true) (hfits : d.Fits db)
    (h : d.fetch db = some case) (hstage : case.stage ≠ .dismissed) : d.Reopens db := by
  have hstored : d.fetch (d.storeWallets db) = some case := view_storeWallets.2.trans h
  have hfund := fund_eq hopens hfits.observation hfits.window db
  rw [h] at hfund
  simp only [if_pos hstage] at hfund
  obtain ⟨hview, -⟩ := additionalFunding_view hstored
  apply reopens_of_view hfund (additionalFunding_answer hstored) hview
  · rw [withFanout_stage]
    exact hstage
  · intro before hbefore
    obtain rfl : case = before := Option.some.inj (h.symm.trans hbefore)
    rw [eventsOf_storeWallets]
    exact List.prefix_append _ _

/-- A recipient without a case gets one. -/
theorem reopens_of_none (hopens : opensCases d.event d.config d.percentileThresholdSol = true) (hfits : d.Fits db)
    (h : d.fetch db = none) : d.Reopens db := by
  have hstored : d.fetch (d.storeWallets db) = none := view_storeWallets.2.trans h
  have hfund := fund_eq hopens hfits.observation hfits.window db
  rw [h] at hfund
  simp only [openFundedCase, if_pos (hfits.native h)] at hfund
  obtain ⟨case, hview, hstage⟩ := openCase_view hstored
  apply reopens_of_view hfund (openCase_answer hstored) hview
  · simp [hstage]
  · intro before hbefore
    rw [h] at hbefore
    cases hbefore

/-- A call that answers a case has stored all its values, and met no dismissed case. -/
theorem fits_of_reopens (hopens : opensCases d.event d.config d.percentileThresholdSol = true) (h : d.Reopens db) :
    ¬ d.IsDismissed db ∧ d.Fits db := by
  obtain ⟨answered, hanswer, -⟩ := h
  have hobs : d.event.observable = true := by
    by_contra hobs
    rw [fund_unobservable hobs] at hanswer
    cases hanswer
  have hwindow : d.event.windowEnds d.config ≤ maxUtc := by
    by_contra hwindow
    rw [fund_panics hopens hobs hwindow] at hanswer
    cases hanswer
  have hfund := fund_eq hopens hobs hwindow db
  refine ⟨?_, hobs, hwindow, ?_⟩
  · intro ⟨case, hcase, hdismissed⟩
    rw [hcase] at hfund
    simp only [hdismissed, ne_eq, not_true_eq_false, if_false] at hfund
    obtain ⟨e, he⟩ := openFundedCase_error (view_storeWallets.2.trans hcase)
    rw [hfund, he] at hanswer
    cases hanswer
  · intro hnone
    by_contra hnative
    rw [hnone] at hfund
    simp only [openFundedCase, if_neg hnative] at hfund
    rw [hfund] at hanswer
    cases hanswer

end

/-! ## A case that was dismissed -/

/-- The case of the wallet after its window has expired. -/
def dismissedDb : RadarDb := dismissCase fundedDb 1 expiredReason

end WhaleIntelligence.Radar
