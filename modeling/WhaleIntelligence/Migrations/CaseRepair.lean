import WhaleIntelligence.Migrations.CaseAlerts

/- The third preflight over a whole database.

   With nothing to merge the statements change nothing, so every way through the
   function is `mergeAway` on the normalised tables (`preflight_eq`). Where the alerts
   have one heir for each destination nothing is lost, and only there
   (`preflightRepairFundingCaseIdentity_lossless_iff`): two alerts that want the same
   free key abort the transaction, and with it the upgrade. -/
namespace WhaleIntelligence.Migrations
open WhaleIntelligence Signals

/-! ## The ways through the function -/

section
variable {cases : List CaseRow} {c : CaseRow} {alerts : List AlertRow} {t : Tables} {db : RadarDb} {b : Bool}

/-- The references of an alert, repointed. -/
def AlertRow.repointed (merge : List (Int × Int)) (a : AlertRow) : AlertRow :=
  { a with fundingCaseId := a.fundingCaseId.map (repoint merge) }

theorem normalizeEvidence_eq (h : c.evidence.isObject = true) : c.normalizeEvidence = c := by
  rw [CaseRow.normalizeEvidence, if_pos h]

theorem swiCaseMerge_normalize : swiCaseMerge (cases.map CaseRow.normalizeEvidence) = swiCaseMerge cases := by
  rw [swiCaseMerge, swiCaseMerge, List.map_map]
  congr 1
  refine List.map_congr_left fun c _ => ?_
  show (c.normalizeEvidence.id, keepId (cases.map CaseRow.normalizeEvidence) c.normalizeEvidence) = _
  rw [keepId_normalize]
  rfl

theorem swiCaseMerge_eq_nil (h : ∀ c ∈ cases, KeptCase cases c) : swiCaseMerge cases = [] := by
  rw [List.eq_nil_iff_forall_not_mem]
  intro m hm
  obtain ⟨c, hc, -, -, hnot⟩ := mem_swiCaseMerge.mp hm
  exact hnot (h c hc)

/-- Without duplicates every case is kept. -/
theorem kept_of_alone (hc : c ∈ cases) (h : (groupOf cases c).length ≤ 1) : KeptCase cases c := by
  obtain ⟨⟨k, hk, hg, hid⟩, -⟩ := keepId_spec hc
  have hself : c ∈ groupOf cases c := mem_groupOf.mpr ⟨hc, rfl⟩
  have hlength := List.length_pos_of_mem hself
  obtain ⟨x, hx⟩ := List.length_eq_one_iff.mp (by omega : (groupOf cases c).length = 1)
  have hkx : k ∈ groupOf cases c := mem_groupOf.mpr ⟨hk, hg⟩
  rw [hx, List.mem_singleton] at hself hkx
  rw [KeptCase, ← hid, hself, hkx]

theorem rekeyAlerts_nil (hkeys : (alerts.map AlertRow.dedupKey).Nodup) : rekeyAlerts [] b alerts = .ok alerts := by
  have hnew : ∀ key, newKey [] key = none := by
    intro key
    rw [newKey]
    cases keySubject key <;> rfl
  have hrekey : swiAlertRekey [] alerts = [] := by
    simp [swiAlertRekey, hnew]
  have hsame : foldedAlerts [] b alerts = alerts := by
    rw [foldedAlerts]
    split
    · rw [hrekey]
      have hfold : ∀ t, foldedAlert [] alerts t = t := by
        intro t
        have hnone : foldSource [] alerts t = none := by
          simp [foldSource]
        rw [foldedAlert, hnone]
      rw [funext hfold, List.map_id']
    · rfl
  simp only [rekeyAlerts, hrekey, hsame]
  have hdrop : Rekey.dropStale AlertRow.dedupKey
    (fun key => ([] : List (String × String)).lookup key) alerts = alerts := by
    simp [Rekey.dropStale]
  have hid : Rekey.rekeyed AlertRow.dedupKey AlertRow.setKey
    (fun key => ([] : List (String × String)).lookup key) alerts =
      alerts := by
    simp [Rekey.rekeyed]
  rw [hdrop, hid, if_pos hkeys]

/-- With nothing to merge the statements change nothing. -/
theorem mergeAway_nil (catalog : Catalog) (hkeys : (t.alerts.map AlertRow.dedupKey).Nodup) :
    mergeAway catalog [] t = .ok t := by
  have hrow : ∀ cases, mergeCases [] cases = cases := by
    intro cases
    have hself : ∀ c, mergedRow [] cases c = c := fun c => rfl
    rw [mergeCases, funext hself, List.map_id']
  have hpoint : ∀ i, repoint [] i = i := fun i => rfl
  have hfk : (t.alerts.map fun a => { a with fundingCaseId := a.fundingCaseId.map (repoint []) }) = t.alerts := by
    have hself : ∀ o : Option Int, o.map (repoint []) = o := by
      intro o
      rw [funext hpoint, Option.map_id']
    simp only [hself, List.map_id']
  simp only [mergeAway, hfk, rekeyAlerts_nil hkeys, ite_self, hrow, hpoint, List.map_nil, List.contains_nil,
    Bool.not_false, List.filter_true, List.map_id']
  have hall : ∀ o : Option Int, o.filter (fun _ => true) = o := by
    intro o
    cases o <;> rfl
  simp only [bind, Except.bind, pure, Except.pure, hall, List.map_id']

/-- A database without the tenant index is normalised and merged, whichever way the function takes. -/
theorem preflight_eq (hindex : db.catalog.tenantIndex = false) : preflightRepairFundingCaseIdentity db =
    mergeAway db.catalog (swiCaseMerge db.cases)
      { db.toTables with cases := db.cases.map CaseRow.normalizeEvidence } := by
  simp only [preflightRepairFundingCaseIdentity, hindex, swiCaseMerge_normalize]
  split
  · rename_i hno
    have hnil := db.noCases (by simpa using hno)
    have hsame : db.cases.map CaseRow.normalizeEvidence = db.cases := by rw [hnil]; rfl
    have hmerge : swiCaseMerge db.cases = [] := by rw [hnil]; rfl
    rw [hsame, hmerge, mergeAway_nil db.catalog db.alertKeys]
  · rw [if_neg Bool.false_ne_true]
    split
    · rename_i hclean
      rw [Bool.and_eq_true, Bool.not_eq_true', Bool.not_eq_true', List.any_eq_false, List.any_eq_false] at hclean
      obtain ⟨hobject, halone⟩ := hclean
      have hsame : db.cases.map CaseRow.normalizeEvidence = db.cases := by
        rw [List.map_congr_left fun c hc => normalizeEvidence_eq (c := c) (by simpa using hobject c hc), List.map_id']
      have hnil : swiCaseMerge db.cases = [] :=
        swiCaseMerge_eq_nil fun c hc => kept_of_alone hc (by simpa using halone c hc)
      rw [hsame, hnil, mergeAway_nil db.catalog db.alertKeys]
    · split
      · rename_i hempty
        rw [List.isEmpty_iff.mp hempty]
        refine (mergeAway_nil db.catalog ?_).symm
        exact db.alertKeys
      · rfl

end

/-! ## What is kept -/

/-- Nothing of a group is lost: its case with the smallest id is left with the merged columns, its events point to
    that case, and every destination it alerted has one alert, under the key of that case, sent when one was. -/
structure Lossless (owner : Option Int × String × String → Int) (before after : Tables) : Prop where
  merged : ∀ c ∈ before.cases, ∃ x, (∀ y, y ∈ after.cases ∧ y.group = c.group ↔ y = x) ∧
    (∃ r ∈ groupOf before.cases c, r.id = x.id) ∧ (∀ r ∈ groupOf before.cases c, x.id ≤ r.id) ∧
    MergedFrom (groupOf before.cases c) x
  noOther : ∀ x ∈ after.cases, ∃ c ∈ before.cases, c.group = x.group
  events : List.Forall₂ (fun e e' => e'.id = e.id ∧ ∀ c ∈ before.cases, c.id = e.caseId →
    ∀ x ∈ after.cases, x.group = c.group → e'.caseId = x.id) before.events after.events
  alerts : ∀ k ∈ after.cases, ∀ d, (∃ a ∈ before.alerts, ForGroup owner before.cases k d a) →
    ∃ x, (∀ y, y ∈ after.alerts ∧ ForGroup owner before.cases k d y ↔ y = x) ∧ x.dedupKey = caseKey owner k d ∧
      (x.state = .sent ↔ ∃ a ∈ before.alerts, ForGroup owner before.cases k d a ∧ a.state = .sent)

/-! ## The cases and the events -/

section
variable {cases grp : List CaseRow} {c k x : CaseRow}

theorem mergedFrom_normalize (h : MergedFrom (grp.map CaseRow.normalizeEvidence) x) : MergedFrom grp x := by
  have hgreatest : ∀ {column : CaseRow → Int} {v : Int}, (∀ r : CaseRow, column r.normalizeEvidence = column r) →
      Greatest column (grp.map CaseRow.normalizeEvidence) v → Greatest column grp v := by
    intro column v hcolumn hv
    obtain ⟨⟨r, hr, hrv⟩, hle⟩ := hv
    obtain ⟨s, hs, rfl⟩ := List.mem_map.mp hr
    refine ⟨⟨s, hs, (hcolumn s).symm.trans hrv⟩, fun r hr => ?_⟩
    rw [← hcolumn r]
    exact hle _ (List.mem_map_of_mem hr)
  obtain ⟨r, hr, hfirst, hvalues⟩ := h.firstFunding
  obtain ⟨s, hs, rfl⟩ := List.mem_map.mp hr
  refine ⟨⟨s, hs, fun r hr => hfirst r.normalizeEvidence (List.mem_map_of_mem hr), hvalues⟩,
    hgreatest (fun _ => rfl) h.confidence,
    hgreatest (fun _ => rfl) h.fanoutCount, hgreatest (fun _ => rfl) h.deployWindowEndsAt,
    hgreatest (fun _ => rfl) h.updatedAt, ?_⟩
  obtain ⟨⟨r, hr, hrv⟩, hle⟩ := h.stage
  obtain ⟨s, hs, rfl⟩ := List.mem_map.mp hr
  exact ⟨⟨s, hs, hrv⟩, fun r hr => hle r.normalizeEvidence (List.mem_map_of_mem hr)⟩

theorem kept_normalize : KeptCase (cases.map CaseRow.normalizeEvidence) c.normalizeEvidence ↔ KeptCase cases c := by
  rw [KeptCase, KeptCase, keepId_normalize]
  rfl

/-- The cases after the repair. -/
def repairedCases (cases : List CaseRow) : List CaseRow :=
  (mergeCases (swiCaseMerge cases) (cases.map CaseRow.normalizeEvidence)).filter fun c =>
    !((swiCaseMerge cases).map Prod.fst).contains c.id

/-- The case of a kept one after the repair. -/
def repairedCase (cases : List CaseRow) (k : CaseRow) : CaseRow :=
  mergedRow (swiCaseMerge cases) (cases.map CaseRow.normalizeEvidence) k.normalizeEvidence

theorem ids_normalize : (cases.map CaseRow.normalizeEvidence).map CaseRow.id = cases.map CaseRow.id := by
  rw [List.map_map]
  rfl

theorem repairedCase_id : (repairedCase cases k).id = k.id := mergedRow_id _ _

theorem repairedCase_group : (repairedCase cases k).group = k.group := mergedRow_group _ _

theorem mem_repairedCases (hids : (cases.map CaseRow.id).Nodup) :
    x ∈ repairedCases cases ↔ ∃ k ∈ cases, KeptCase cases k ∧ x = repairedCase cases k := by
  have hmem := mem_mergedCases (x := x) (ids_normalize.symm ▸ hids)
  rw [swiCaseMerge_normalize] at hmem
  rw [repairedCases, hmem]
  refine ⟨fun h => ?_, fun h => ?_⟩
  · obtain ⟨k', hk', hkept, rfl⟩ := h
    obtain ⟨k, hk, rfl⟩ := List.mem_map.mp hk'
    exact ⟨k, hk, kept_normalize.mp hkept, rfl⟩
  · obtain ⟨k, hk, hkept, rfl⟩ := h
    exact ⟨_, List.mem_map_of_mem hk, kept_normalize.mpr hkept, rfl⟩

theorem mergedFrom_repairedCase (hids : (cases.map CaseRow.id).Nodup) (hk : k ∈ cases) (hkept : KeptCase cases k) :
    MergedFrom (groupOf cases k) (repairedCase cases k) := by
  have hfrom := mergedFrom_mergedRow (ids_normalize.symm ▸ hids) (List.mem_map_of_mem hk) (kept_normalize.mpr hkept)
  have hgroup : groupOf (cases.map CaseRow.normalizeEvidence) k.normalizeEvidence =
      (groupOf cases k).map CaseRow.normalizeEvidence := List.filter_map
  rw [swiCaseMerge_normalize, hgroup] at hfrom
  exact mergedFrom_normalize hfrom

/-- Every group has one case after the repair. -/
theorem repaired_group (hids : (cases.map CaseRow.id).Nodup) (hc : c ∈ cases) :
    ∃ k ∈ cases, KeptCase cases k ∧ k.group = c.group ∧
      ∀ y, y ∈ repairedCases cases ∧ y.group = c.group ↔ y = repairedCase cases k := by
  obtain ⟨k, hk, hg, -, hkept⟩ := exists_kept hc
  refine ⟨k, hk, hkept, hg, fun y => ⟨fun h => ?_, fun h => ?_⟩⟩
  · obtain ⟨hy, hyg⟩ := h
    obtain ⟨k', hk', hkept', rfl⟩ := (mem_repairedCases hids).mp hy
    rw [repairedCase_group] at hyg
    have hid : k'.id = k.id := ((kept_iff hids hk hk' hkept').mpr (hyg.trans hg.symm)).trans hkept
    rw [eq_of_id_eq hids hk' hk hid]
  · rw [h]
    exact ⟨(mem_repairedCases hids).mpr ⟨k, hk, hkept, rfl⟩, repairedCase_group.trans hg⟩

/-- No event is dropped with its case, and each points to the case of its group. -/
theorem repaired_events {events : List EventRow} (hids : (cases.map CaseRow.id).Nodup)
    (hevents : ∀ e ∈ events, e.caseId ∈ cases.map CaseRow.id) :
    List.Forall₂ (fun e e' => e'.id = e.id ∧ ∀ c ∈ cases, c.id = e.caseId →
        ∀ x ∈ repairedCases cases, x.group = c.group → e'.caseId = x.id)
      events
      ((events.map fun e => { e with caseId := repoint (swiCaseMerge cases) e.caseId }).filter fun e =>
        !((swiCaseMerge cases).map Prod.fst).contains e.caseId) := by
  have hpoint : ∀ e ∈ events, ∃ c ∈ cases, c.id = e.caseId ∧
    repoint (swiCaseMerge cases) e.caseId = keepId cases c := by
    intro e he
    obtain ⟨c, hc, hid⟩ := List.mem_map.mp (hevents e he)
    exact ⟨c, hc, hid, hid ▸ repoint_swiCaseMerge hids hc⟩
  have hstay : ∀ e' ∈ events.map fun e => { e with caseId := repoint (swiCaseMerge cases) e.caseId },
      (!((swiCaseMerge cases).map Prod.fst).contains e'.caseId) = true := by
    intro e' he'
    obtain ⟨e, he, rfl⟩ := List.mem_map.mp he'
    obtain ⟨c, hc, -, hkeep⟩ := hpoint e he
    obtain ⟨k, hk, -, hkid, hkept⟩ := exists_kept hc
    rw [Bool.not_eq_true', ← Bool.not_eq_true, List.contains_iff_mem, hkeep, ← hkid, mem_gone hids hk, not_not]
    exact hkept
  rw [List.filter_eq_self.mpr hstay, List.forall₂_map_right_iff, List.forall₂_same]
  intro e he
  refine ⟨rfl, fun c hc hid x hx hg => ?_⟩
  obtain ⟨c', hc', hid', hkeep⟩ := hpoint e he
  obtain ⟨k, hk, hkept, rfl⟩ := (mem_repairedCases hids).mp hx
  rw [repairedCase_group] at hg
  show repoint (swiCaseMerge cases) e.caseId = (repairedCase cases k).id
  rw [hkeep, repairedCase_id, eq_of_id_eq hids hc' hc (hid'.trans hid.symm)]
  exact ((kept_iff hids hc hk hkept).mpr hg).symm

end

/-! ## The alerts -/

/-- The references to the removed cases, gone. -/
def AlertRow.unreferenced (merge : List (Int × Int)) (a : AlertRow) : AlertRow :=
  { a with fundingCaseId := a.fundingCaseId.filter fun id => !(merge.map Prod.fst).contains id }

/-- The database when its alerts are renamed. -/
def RadarDb.referenced (db : RadarDb) : RadarDb :=
  { db with
    alerts := db.alerts.map (AlertRow.repointed (swiCaseMerge db.cases))
    alertKeys := by
      rw [List.map_map]
      exact db.alertKeys }

section
variable {owner : Option Int × String × String → Int} {db : RadarDb} {k : CaseRow} {d : String} {t : Tables}

theorem referenced_keys (db : RadarDb) :
    db.referenced.alerts.map AlertRow.dedupKey = db.alerts.map AlertRow.dedupKey := List.map_map

theorem owned_referenced (ho : Owned owner db.toTables) : Owned owner db.referenced.toTables := by
  refine ⟨ho.workspace, fun a ha => ?_⟩
  obtain ⟨b, hb, rfl⟩ := List.mem_map.mp ha
  exact ho.canonical b hb

theorem oneHeir_referenced : OneHeir owner db.referenced.toTables ↔ OneHeir owner db.toTables := by
  refine ⟨fun h => ⟨?_, ?_⟩, fun h => ⟨?_, ?_⟩⟩
  · exact referenced_keys db ▸ h.positive
  · exact referenced_keys db ▸ h.single
  · exact (referenced_keys db).symm ▸ h.positive
  · exact (referenced_keys db).symm ▸ h.single

/-- What the repair returns: the alerts are those that the renaming leaves. -/
theorem mergeAway_ok_iff {catalog : Catalog} (hcase : catalog.alertsHaveCase = true)
    (hstate : catalog.alertsHaveState = true) :
    mergeAway catalog (swiCaseMerge db.cases) { db.toTables with cases := db.cases.map CaseRow.normalizeEvidence } =
        .ok t ↔
      ∃ l, rekeyAlerts (swiCaseMerge db.cases) true db.referenced.alerts = .ok l ∧ t = {
        cases := repairedCases db.cases
        events := (db.events.map fun e => { e with caseId := repoint (swiCaseMerge db.cases) e.caseId }).filter fun e =>
          !((swiCaseMerge db.cases).map Prod.fst).contains e.caseId
        alerts := l.map (AlertRow.unreferenced (swiCaseMerge db.cases)) } := by
  simp only [mergeAway, hcase, hstate, if_true]
  show Except.bind (rekeyAlerts _ true db.referenced.alerts) _ = _ ↔ _
  cases rekeyAlerts (swiCaseMerge db.cases) true db.referenced.alerts with
  | error e =>
    refine ⟨fun h => (by cases h), fun h => ?_⟩
    obtain ⟨l, hl, -⟩ := h
    cases hl
  | ok l =>
    refine ⟨fun h => ?_, fun h => ?_⟩
    · cases h
      exact ⟨l, rfl, rfl⟩
    · obtain ⟨l', hl, rfl⟩ := h
      cases hl
      rfl

/-- The alerts of a repair that goes through. -/
theorem repaired_alerts {l : List AlertRow} (ho : Owned owner db.toTables) (hheir : OneHeir owner db.toTables)
    (hl : rekeyAlerts (swiCaseMerge db.cases) true db.referenced.alerts = .ok l) (hk : k ∈ db.cases)
    (hkept : KeptCase db.cases k) (hsome : ∃ a ∈ db.alerts, ForGroup owner db.cases k d a) :
    ∃ x, (∀ y, y ∈ l.map (AlertRow.unreferenced (swiCaseMerge db.cases)) ∧ ForGroup owner db.cases k d y ↔ y = x) ∧
      x.dedupKey = caseKey owner k d ∧
      (x.state = .sent ↔ ∃ a ∈ db.alerts, ForGroup owner db.cases k d a ∧ a.state = .sent) := by
  obtain ⟨a, ha, hgroup⟩ := hsome
  obtain ⟨x, hx, hkey, hsent⟩ := settled_alert (owned_referenced ho) (oneHeir_referenced.mpr hheir) hl hk hkept
    ⟨_, List.mem_map_of_mem ha, hgroup⟩
  refine ⟨x.unreferenced (swiCaseMerge db.cases), fun y => ⟨fun h => ?_, fun h => ?_⟩, hkey, ?_⟩
  · obtain ⟨hy, hyg⟩ := h
    obtain ⟨z, hz, rfl⟩ := List.mem_map.mp hy
    rw [(hx z).mp ⟨hz, hyg⟩]
  · obtain ⟨hxl, hxg⟩ := (hx x).mpr rfl
    rw [h]
    exact ⟨List.mem_map_of_mem hxl, hxg⟩
  · show x.state = .sent ↔ _
    rw [hsent]
    refine ⟨fun h => ?_, fun h => ?_⟩
    · obtain ⟨_, hmem, hbg, hbsent⟩ := h
      obtain ⟨b, hb, rfl⟩ := List.mem_map.mp hmem
      exact ⟨b, hb, hbg, hbsent⟩
    · obtain ⟨b, hb, hbg, hbsent⟩ := h
      exact ⟨_, List.mem_map_of_mem hb, hbg, hbsent⟩

/-- An alert of a removed case with no positive id keeps its key, so a repair that loses nothing met none. -/
theorem positive_of_lossless {l : List AlertRow} (ho : Owned owner db.toTables)
    (hl : rekeyAlerts (swiCaseMerge db.cases) true db.referenced.alerts = .ok l)
    (halerts : l.map (AlertRow.unreferenced (swiCaseMerge db.cases)) = t.alerts)
    (hcases : repairedCases db.cases = t.cases) (h : Lossless owner db.toTables t) :
    ∀ c ∈ db.cases, ¬ KeptCase db.cases c → ∀ d, caseKey owner c d ∈ db.alerts.map AlertRow.dedupKey → 0 < c.id := by
  intro c hc hnot d hkey
  by_contra hpos
  rw [← referenced_keys] at hkey
  obtain ⟨a, ha, hak⟩ := List.mem_map.mp hkey
  have hnone : (swiAlertRekey (swiCaseMerge db.cases) db.referenced.alerts).lookup a.dedupKey = none := by
    rw [Option.eq_none_iff_forall_ne_some]
    intro n hn
    obtain ⟨c', hc', -, -, d', -, hpos', -, -, hkey', -⟩ := (lookup_rekey_iff (owned_referenced ho) ha).mp hn
    rw [(caseKey_inj (hak.symm.trans hkey')).1] at hpos
    exact hpos hpos'
  obtain ⟨k, hk, hg, -, hkept⟩ := exists_kept hc
  -- the alert is still there, under the key of the removed case
  obtain ⟨y, hy, hykey⟩ : ∃ y ∈ t.alerts, y.dedupKey = caseKey owner c d := by
    have hleft := ((mem_rekeyAlerts hl).2 _).mpr ⟨a, ha, Or.inl ⟨hnone, rfl⟩⟩
    refine ⟨AlertRow.unreferenced _ _, halerts ▸ List.mem_map_of_mem hleft, ?_⟩
    exact (foldedAlert_key _ a).trans hak
  obtain ⟨k, hk, hg, -, hkept⟩ := exists_kept hc
  have hmem : repairedCase db.cases k ∈ t.cases := hcases ▸ (mem_repairedCases db.caseIds).mpr ⟨k, hk, hkept, rfl⟩
  have hgroup : c.group = (repairedCase db.cases k).group := hg.symm.trans repairedCase_group.symm
  obtain ⟨b, hb, rfl⟩ := List.mem_map.mp ha
  obtain ⟨x, hx, hxkey, -⟩ := h.alerts _ hmem d ⟨b, hb, c, hc, hgroup, hak⟩
  rw [← (hx y).mp ⟨hy, c, hc, hgroup, hykey⟩, hykey] at hxkey
  have hid : c.id = k.id := (caseKey_inj hxkey).1.trans repairedCase_id
  rw [eq_of_id_eq db.caseIds hc hk hid] at hnot
  exact hnot hkept

end

/-! ## The repair -/

/-- Before 1037, where the alerts have their state and their case, the repair goes through and loses nothing of a
    group exactly when the stale alerts of the group have one heir for each destination. -/
theorem preflightRepairFundingCaseIdentity_lossless_iff (owner : Option Int × String × String → Int) (db : RadarDb)
    (hindex : db.catalog.tenantIndex = false) (hcase : db.catalog.alertsHaveCase = true)
    (hstate : db.catalog.alertsHaveState = true) (ho : Owned owner db.toTables) :
    (∃ t, preflightRepairFundingCaseIdentity db = .ok t ∧ Lossless owner db.toTables t) ↔
      OneHeir owner db.toTables := by
  rw [preflight_eq hindex]
  refine ⟨fun h => ?_, fun h => ?_⟩
  · obtain ⟨t, ht, hlossless⟩ := h
    obtain ⟨l, hl, rfl⟩ := (mergeAway_ok_iff hcase hstate).mp ht
    have hpos := positive_of_lossless ho hl rfl rfl hlossless
    have hfree := (rekeyAlerts_ok_iff db.referenced.alertKeys).mp ⟨l, hl⟩
    refine oneHeir_referenced.mp ((uncontested_iff (owned_referenced ho) ?_).mp hfree)
    rw [referenced_keys]
    exact hpos
  · have hheir := oneHeir_referenced.mpr h
    obtain ⟨l, hl⟩ := (rekeyAlerts_ok_iff db.referenced.alertKeys).mpr
      ((uncontested_iff (owned_referenced ho) hheir.positive).mpr hheir)
    refine ⟨_, (mergeAway_ok_iff hcase hstate).mpr ⟨l, hl, rfl⟩, ?_, ?_, repaired_events db.caseIds db.eventCases, ?_⟩
    · intro c hc
      obtain ⟨k, hk, hkept, hg, hone⟩ := repaired_group db.caseIds hc
      have hgroup : groupOf db.cases c = groupOf db.cases k := by rw [groupOf, groupOf, hg]
      refine ⟨_, hone, ?_, ?_, ?_⟩
      · exact ⟨k, hgroup ▸ mem_groupOf.mpr ⟨hk, rfl⟩, repairedCase_id.symm⟩
      · intro r hr
        rw [hgroup, mem_groupOf] at hr
        rw [repairedCase_id, ← hkept]
        exact (keepId_spec hk).2 r hr.1 hr.2
      · rw [hgroup]
        exact mergedFrom_repairedCase db.caseIds hk hkept
    · intro x hx
      obtain ⟨k, hk, -, rfl⟩ := (mem_repairedCases db.caseIds).mp hx
      exact ⟨k, hk, repairedCase_group.symm⟩
    · intro x hx d hsome
      obtain ⟨k, hk, hkept, rfl⟩ := (mem_repairedCases db.caseIds).mp hx
      have hkey : caseKey owner (repairedCase db.cases k) d = caseKey owner k d := by
        rw [caseKey, repairedCase_group, repairedCase_id, caseKey]
      have hfor : ∀ a, ForGroup owner db.cases (repairedCase db.cases k) d a ↔ ForGroup owner db.cases k d a := by
        intro a
        rw [ForGroup, repairedCase_group, ForGroup]
      simp only [hfor, hkey] at hsome ⊢
      exact repaired_alerts ho h hl hk hkept hsome

/-! ## Three cases of one recipient -/

def radarCase (id : Int) (evidence : Json) : CaseRow where
  id
  workspaceId := none
  chain := "solana"
  recipient := "R"
  firstFundedAt := 100 - id
  firstFundingUsd := none
  firstFundingNative := 5
  sourceAddress := "S"
  sourceKind := none
  fanoutCount := id
  deployWindowEndsAt := 200
  stage := .funded
  confidence := 50
  evidence
  updatedAt := 100
  dismissedReason := none

def alertRow (key : String) (state : AlertState) : AlertRow where
  dedupKey := key
  fundingCaseId := none
  state
  sentAt := none
  nextAttemptAt := none
  claimToken := none
  claimExpiresAt := none

/-- The cases 1, 2 and 3 of one recipient, with the alerts. -/
def threeCases (alerts : List AlertRow) (alertKeys : (alerts.map AlertRow.dedupKey).Nodup) : RadarDb where
  cases := [radarCase 1 .null, radarCase 2 (.object []), radarCase 3 .null]
  events := [⟨1, 3⟩]
  alerts
  catalog := ⟨true, false, true, true⟩
  noCases := by decide
  caseIds := by decide
  caseIdRange := by decide
  alertKeys
  eventCases := by decide

/-- Every key is one of workspace 7, for one of the cases. -/
theorem threeCases_owned {alerts : List AlertRow} {alertKeys : (alerts.map AlertRow.dedupKey).Nodup}
    (h : ∀ a ∈ alerts, ∃ n d, a.dedupKey = alertDedupKey "funding" 7 n d) :
    Owned (fun _ => 7) (threeCases alerts alertKeys).toTables := by
  refine ⟨fun c hc w hw => ?_, fun a ha _ => ?_⟩
  · have hnone : ∀ c ∈ [radarCase 1 .null, radarCase 2 (.object []), radarCase 3 .null], c.workspaceId = none := by
      decide
    rw [hnone c hc] at hw
    cases hw
  · obtain ⟨n, d, hkey⟩ := h a ha
    exact ⟨7, n, d, hkey, fun _ _ _ => rfl⟩

/-- A sent alert of case 3 is folded into the one that case 1 has for the same destination. -/
theorem folded_lossless : ∃ t, preflightRepairFundingCaseIdentity
      (threeCases [alertRow "funding:7:1:telegram" .pending, alertRow "funding:7:3:telegram" .sent] (by decide)) =
        .ok t ∧
    Lossless (fun _ => 7)
      (threeCases [alertRow "funding:7:1:telegram" .pending, alertRow "funding:7:3:telegram" .sent]
        (by decide)).toTables
      t := by
  refine (preflightRepairFundingCaseIdentity_lossless_iff _ _ rfl rfl rfl (threeCases_owned ?_)).mpr ⟨?_, ?_⟩
  · intro a ha
    simp only [List.mem_cons, List.not_mem_nil, or_false] at ha
    obtain rfl | rfl := ha
    · exact ⟨1, "telegram", by decide⟩
    · exact ⟨3, "telegram", by decide⟩
  · have hpos : ∀ c ∈ [radarCase 1 .null, radarCase 2 (.object []), radarCase 3 .null], 0 < c.id := by decide
    exact fun c hc _ _ _ => hpos c hc
  · intro k hk hkept d hfree c _ _ _ _ _ hkey _
    have hsurvivor : ∀ k ∈ [radarCase 1 .null, radarCase 2 (.object []), radarCase 3 .null],
        keepId [radarCase 1 .null, radarCase 2 (.object []), radarCase 3 .null] k = k.id → k.id = 1 := by
      decide
    have hd : d = "telegram" := by
      have hone : "funding:7:1:telegram" = alertDedupKey "funding" 7 1 "telegram" := by decide
      have hthree : "funding:7:3:telegram" = alertDedupKey "funding" 7 3 "telegram" := by decide
      simp only [threeCases, alertRow, List.map_cons, List.map_nil, List.mem_cons, List.not_mem_nil, or_false] at hkey
      obtain h | h := hkey
      · exact (fundingKey_inj (h.trans hone)).2.2
      · exact (fundingKey_inj (h.trans hthree)).2.2
    refine absurd ?_ hfree
    rw [caseKey, hsurvivor k hk hkept, hd]
    decide

/-- The cases 2 and 3 both alerted a destination that case 1 did not: the upgrade is aborted. -/
theorem contested_aborted : Owned (fun _ => 7) (threeCases
      [alertRow "funding:7:2:telegram" .sent, alertRow "funding:7:3:telegram" .pending] (by decide)).toTables ∧
    preflightRepairFundingCaseIdentity (threeCases
      [alertRow "funding:7:2:telegram" .sent, alertRow "funding:7:3:telegram" .pending] (by decide)) =
        .error (.uniqueViolation "alerts_pkey") := by
  refine ⟨threeCases_owned ?_, rfl⟩
  intro a ha
  simp only [List.mem_cons, List.not_mem_nil, or_false] at ha
  obtain rfl | rfl := ha
  · exact ⟨2, "telegram", by decide⟩
  · exact ⟨3, "telegram", by decide⟩

end WhaleIntelligence.Migrations
