import WhaleIntelligence.Recent.Store

/- Retractions: `apply_retraction`, and the clause of the current view.

   The two read the same retractions in two ways. The clause of `fetch_relations` asks
   of the row that carries a retraction that it is confirmed, that it is of the token,
   and that it names a target; the loop is given the retractions alone and asks only
   for a legal status. So the view hides what the loop downgrades exactly where every
   row that a legal retraction targets is also the target of one that the clause
   accepts (`retractions_mirror_iff`). -/
namespace WhaleIntelligence.Recent
open WhaleIntelligence SerialTable

/-! ## The loop -/

/-- A retraction supersedes its target or calls it an error. -/
def Retraction.isLegal (r : Retraction) : Bool := r.truthStatus == .superseded || r.truthStatus == .erroneous

def RecentEvent.downgrade (e : RecentEvent) (r : Retraction) : RecentEvent :=
  { e with truthStatus := r.truthStatus, retraction := some r }

/-- The first event under the id is downgraded; a dangling target changes nothing. -/
def retractFirst (r : Retraction) : List RecentEvent → List RecentEvent
  | [] => []
  | e :: out => if e.eventId = r.targetEventId then e.downgrade r :: out else e :: retractFirst r out

/-- `apply_retraction`. -/
def applyRetraction (events : List RecentEvent) (retractions : List Retraction) : List RecentEvent :=
  retractions.foldl (fun out r => if r.isLegal then retractFirst r out else out) events

/-! ## The rows -/

/-- A row that the current view could show. -/
def RecentEventRow.isRelation (e : RecentEventRow) (workspaceId : Int64) (tokenIdentity : String) : Bool :=
  e.workspaceId == workspaceId && e.tokenIdentity == tokenIdentity && e.relation.isSome && e.truthStatus == "confirmed"

/-- The confirmed relation rows of a token. -/
def confirmedRows (t : RecentEvents) (workspaceId : Int64) (tokenIdentity : String) : List RecentEventRow :=
  (t.rows.map Prod.snd).filter (·.isRelation workspaceId tokenIdentity)

/-- The rows of a workspace that carry a retraction. -/
def retractionRows (t : RecentEvents) (workspaceId : Int64) : List RecentEventRow :=
  (t.rows.map Prod.snd).filter fun r => r.workspaceId == workspaceId && r.retraction.isSome

/-- The `NOT EXISTS` clause fails. -/
def hidden (t : RecentEvents) (e : RecentEventRow) : Bool := t.rows.any fun r => retracts r.2 e

/-- The event of the row has another truth status after the loop. -/
def Downgraded (events : List RecentEvent) (retractions : List Retraction) (e : RecentEvent) : Prop :=
  ∃ d ∈ applyRetraction events retractions, d.eventId = e.eventId ∧ d.truthStatus ≠ e.truthStatus

/-- The clause hides the relation rows of a token that the loop downgrades, and no others. -/
def RetractionsMirror (t : RecentEvents) (workspaceId : Int64) (tokenIdentity : String) : Prop :=
  ∀ e ∈ confirmedRows t workspaceId tokenIdentity, hidden t e = true ↔
    Downgraded ((confirmedRows t workspaceId tokenIdentity).map (·.intoEvent false))
      ((retractionRows t workspaceId).filterMap (·.retraction)) (e.intoEvent false)

/-- The row carries a legal retraction of the event under the id. -/
def RecentEventRow.Targets (r : RecentEventRow) (eventId : String) : Prop :=
  ∃ rt, r.retraction = some rt ∧ rt.isLegal = true ∧ rt.targetEventId = eventId

/-- Each relation row that a legal retraction targets has an id, and one of these retractions
is in a confirmed row of the token. -/
def RetractionsAnchored (t : RecentEvents) (workspaceId : Int64) (tokenIdentity : String) : Prop :=
  ∀ e ∈ confirmedRows t workspaceId tokenIdentity,
    (∃ r ∈ retractionRows t workspaceId, r.Targets e.eventId) →
      e.eventId ≠ "" ∧ ∃ r ∈ retractionRows t workspaceId, r.Targets e.eventId ∧
        r.tokenIdentity = tokenIdentity ∧ r.truthStatus = "confirmed"

/-- The current view is the relation rows that are not hidden. -/
theorem inCurrentView_iff {t : RecentEvents} {ws : Int64} {tok : String} {e : RecentEventRow} :
    inCurrentView t ws tok e = true ↔ e.isRelation ws tok = true ∧ hidden t e = false := by
  rw [inCurrentView, RecentEventRow.isRelation, hidden, Bool.and_eq_true, Bool.not_eq_true']

/-- Where the two mirror each other, the view shows the confirmed rows that the loop leaves as they are. -/
theorem inCurrentView_of_mirror {t : RecentEvents} {ws : Int64} {tok : String} (h : RetractionsMirror t ws tok)
    {e : RecentEventRow} (he : e ∈ confirmedRows t ws tok) :
    inCurrentView t ws tok e = true ↔ ¬Downgraded ((confirmedRows t ws tok).map (·.intoEvent false))
      ((retractionRows t ws).filterMap (·.retraction)) (e.intoEvent false) := by
  rw [inCurrentView_iff, and_iff_right (List.mem_filter.mp he).2, ← h e he, Bool.not_eq_true]

/-! ## What the loop does to one event -/

section
variable {events : List RecentEvent} {retractions : List Retraction} {e : RecentEvent} {r : Retraction}

/-- One round as it is seen by one event. -/
def RecentEvent.retractBy (e : RecentEvent) (r : Retraction) : RecentEvent :=
  if r.isLegal ∧ e.eventId = r.targetEventId then e.downgrade r else e

@[simp] theorem retractBy_eventId (e : RecentEvent) (r : Retraction) : (e.retractBy r).eventId = e.eventId := by
  unfold RecentEvent.retractBy
  split
  · rfl
  · rfl

theorem retractBy_fold_eventId (retractions : List Retraction) (e : RecentEvent) :
    (retractions.foldl RecentEvent.retractBy e).eventId = e.eventId := by
  induction retractions generalizing e with
  | nil => rfl
  | cons r rs ih => rw [List.foldl_cons, ih, retractBy_eventId]

/-- Where no id repeats, the first event under an id is the only one. -/
theorem retractFirst_eq_map (hr : r.isLegal = true) (h : (events.map RecentEvent.eventId).Nodup) :
    retractFirst r events = events.map (·.retractBy r) := by
  induction events with
  | nil => rfl
  | cons e es ih =>
    obtain ⟨hnot, hrest⟩ := List.nodup_cons.mp h
    rw [retractFirst, List.map_cons]
    by_cases he : e.eventId = r.targetEventId
    · have htail : es.map (·.retractBy r) = es := by
        -- the other events have other ids
        have hsame : ∀ d ∈ es, d.retractBy r = d := by
          intro d hd
          have hne : d.eventId ≠ r.targetEventId := by
            intro hd'
            apply hnot
            rw [he, ← hd']
            exact List.mem_map_of_mem hd
          simp [RecentEvent.retractBy, hne]
        rw [List.map_congr_left hsame, List.map_id']
      rw [if_pos he, htail]
      simp [RecentEvent.retractBy, hr, he]
    · rw [if_neg he, ih hrest]
      simp [RecentEvent.retractBy, he]

/-- The loop treats every event by itself. -/
theorem applyRetraction_eq_map (h : (events.map RecentEvent.eventId).Nodup) :
    applyRetraction events retractions = events.map fun e => retractions.foldl RecentEvent.retractBy e := by
  induction retractions generalizing events with
  | nil => simp [applyRetraction]
  | cons r rs ih =>
    have hround : (if r.isLegal = true then retractFirst r events else events) = events.map (·.retractBy r) := by
      by_cases hr : r.isLegal = true
      · rw [if_pos hr, retractFirst_eq_map hr h]
      · simp [hr, RecentEvent.retractBy]
    have hids : ((events.map (·.retractBy r)).map RecentEvent.eventId).Nodup := by
      rw [List.map_map]
      have hsame : RecentEvent.eventId ∘ (·.retractBy r) = RecentEvent.eventId := by
        funext e
        simp
      rwa [hsame]
    rw [applyRetraction, List.foldl_cons, hround]
    show applyRetraction (events.map (·.retractBy r)) rs = _
    rw [ih hids, List.map_map]
    rfl

/-- A confirmed event stays confirmed where no legal retraction targets it. -/
theorem retractBy_fold_confirmed (he : e.truthStatus = .confirmed) :
    (retractions.foldl RecentEvent.retractBy e).truthStatus = .confirmed ↔
      ¬ ∃ r ∈ retractions, r.isLegal = true ∧ r.targetEventId = e.eventId := by
  -- once downgraded, an event is never confirmed again
  have hstays : ∀ (rs : List Retraction) (d : RecentEvent), d.truthStatus ≠ .confirmed →
      (rs.foldl RecentEvent.retractBy d).truthStatus ≠ .confirmed := by
    intro rs
    induction rs with
    | nil => exact fun d hd => hd
    | cons r rs ih =>
      intro d hd
      apply ih
      unfold RecentEvent.retractBy
      split
      · rename_i hr
        intro hc
        simp [Retraction.isLegal, show r.truthStatus = .confirmed from hc] at hr
      · exact hd
  induction retractions generalizing e with
  | nil => simp [he]
  | cons r rs ih =>
    rw [List.foldl_cons]
    by_cases hr : r.isLegal = true ∧ e.eventId = r.targetEventId
    · have hdown : (e.retractBy r).truthStatus ≠ .confirmed := by
        rw [RecentEvent.retractBy, if_pos hr]
        intro hc
        have hlegal := hr.1
        simp [Retraction.isLegal, show r.truthStatus = .confirmed from hc] at hlegal
      refine iff_of_false (hstays rs _ hdown) fun h => h ⟨r, List.mem_cons_self, hr.1, hr.2.symm⟩
    · rw [RecentEvent.retractBy, if_neg hr]
      apply (ih he).trans (not_congr _)
      simp only [List.mem_cons, exists_eq_or_imp]
      exact ⟨Or.inr, fun h => h.resolve_left fun h => hr ⟨h.1, h.2.symm⟩⟩

/-- The loop downgrades a confirmed event exactly where a legal retraction targets it. -/
theorem downgraded_iff (h : (events.map RecentEvent.eventId).Nodup) (hmem : e ∈ events)
    (he : e.truthStatus = .confirmed) :
    Downgraded events retractions e ↔ ∃ r ∈ retractions, r.isLegal = true ∧ r.targetEventId = e.eventId := by
  have hone : Downgraded events retractions e ↔
      (retractions.foldl RecentEvent.retractBy e).truthStatus ≠ .confirmed := by
    rw [Downgraded, applyRetraction_eq_map h]
    refine ⟨fun hd => ?_, fun hd => ?_⟩
    · obtain ⟨d, hd, hid, hne⟩ := hd
      obtain ⟨e', he', rfl⟩ := List.mem_map.mp hd
      rw [retractBy_fold_eventId] at hid
      obtain rfl : e' = e := List.inj_on_of_nodup_map h he' hmem hid
      rwa [he] at hne
    · refine ⟨_, List.mem_map_of_mem hmem, retractBy_fold_eventId _ _, ?_⟩
      rwa [he]
  rw [hone, ne_eq, retractBy_fold_confirmed he, not_not]

end

/-! ## The two compared -/

section
variable {t : RecentEvents} {ws : Int64} {tok : String} {e : RecentEventRow}

theorem mem_confirmedRows : e ∈ confirmedRows t ws tok ↔
    (∃ r ∈ t.rows, r.2 = e) ∧ e.workspaceId = ws ∧ e.tokenIdentity = tok ∧ e.relation.isSome = true ∧
      e.truthStatus = "confirmed" := by
  simp [confirmedRows, RecentEventRow.isRelation, and_assoc]

theorem mem_retractionRows {r : RecentEventRow} : r ∈ retractionRows t ws ↔
    (∃ s ∈ t.rows, s.2 = r) ∧ r.workspaceId = ws ∧ r.retraction.isSome = true := by
  simp [retractionRows]

/-- The unique index is on the workspace and the id, so within a workspace the ids do not repeat. -/
theorem confirmedRows_nodup (t : RecentEvents) (ws : Int64) (tok : String) :
    (((confirmedRows t ws tok).map (·.intoEvent false)).map RecentEvent.eventId).Nodup := by
  rw [List.map_map]
  have hkeys : ((confirmedRows t ws tok).map RecentEventRow.uniqueKey).Nodup := by
    refine (List.Sublist.map _ List.filter_sublist).nodup ?_
    rw [List.map_map]
    exact t.keys_nodup
  apply List.Nodup.map_on _ hkeys.of_map
  intro e he d hd hid
  have hws := (mem_confirmedRows.mp he).2.1.trans (mem_confirmedRows.mp hd).2.1.symm
  exact List.inj_on_of_nodup_map hkeys he hd (Prod.ext hws hid)

theorem retracts_iff {r : RecentEventRow} : retracts r e = true ↔
    r.workspaceId = e.workspaceId ∧ r.tokenIdentity = e.tokenIdentity ∧ r.truthStatus = "confirmed" ∧
      e.eventId ≠ "" ∧ r.Targets e.eventId := by
  unfold retracts RecentEventRow.Targets
  cases r.retraction with
  | none => simp
  | some rt =>
    have hlegal : (rt.truthStatus == .superseded || rt.truthStatus == .erroneous) = rt.isLegal := rfl
    simp only [hlegal, Bool.and_eq_true, beq_iff_eq, bne_iff_ne, Option.some.injEq, exists_eq_left', and_assoc]
    refine ⟨fun h => ?_, fun h => ?_⟩
    · obtain ⟨hws, htok, hconf, hne, htarget, hl⟩ := h
      exact ⟨hws, htok, hconf, htarget ▸ hne, hl, htarget⟩
    · obtain ⟨hws, htok, hconf, hne, hl, htarget⟩ := h
      exact ⟨hws, htok, hconf, htarget.symm ▸ hne, htarget, hl⟩

theorem hidden_iff (he : e ∈ confirmedRows t ws tok) : hidden t e = true ↔
    e.eventId ≠ "" ∧ ∃ r ∈ retractionRows t ws, r.Targets e.eventId ∧ r.tokenIdentity = tok ∧
      r.truthStatus = "confirmed" := by
  obtain ⟨-, hws, htok, -, -⟩ := mem_confirmedRows.mp he
  rw [hidden, List.any_eq_true]
  refine ⟨fun h => ?_, fun h => ?_⟩
  · obtain ⟨s, hs, hr⟩ := h
    obtain ⟨hws', htok', hconf, hne, htargets⟩ := retracts_iff.mp hr
    have hsome : s.2.retraction.isSome = true := by
      obtain ⟨rt, hrt, -⟩ := htargets
      rw [hrt]
      rfl
    have hmem : s.2 ∈ retractionRows t ws := mem_retractionRows.mpr ⟨⟨s, hs, rfl⟩, hws'.trans hws, hsome⟩
    exact ⟨hne, s.2, hmem, htargets, htok'.trans htok, hconf⟩
  · obtain ⟨hne, r, hr, htargets, htok', hconf⟩ := h
    obtain ⟨⟨s, hs, rfl⟩, hws', -⟩ := mem_retractionRows.mp hr
    exact ⟨s, hs, retracts_iff.mpr ⟨hws'.trans hws.symm, htok'.trans htok.symm, hconf, hne, htargets⟩⟩

/-- What the loop downgrades, in terms of the rows that carry the retractions. -/
theorem downgraded_row_iff (he : e ∈ confirmedRows t ws tok) :
    Downgraded ((confirmedRows t ws tok).map (·.intoEvent false))
      ((retractionRows t ws).filterMap (·.retraction)) (e.intoEvent false) ↔
      ∃ r ∈ retractionRows t ws, r.Targets e.eventId := by
  have hconf : (e.intoEvent false).truthStatus = .confirmed := by
    show truthStatusFromStr e.truthStatus = .confirmed
    rw [(mem_confirmedRows.mp he).2.2.2.2]
    rfl
  rw [downgraded_iff (confirmedRows_nodup t ws tok) (List.mem_map_of_mem he) hconf]
  refine ⟨fun h => ?_, fun h => ?_⟩
  · obtain ⟨rt, hrt, hlegal, htarget⟩ := h
    obtain ⟨r, hr, hr'⟩ := List.mem_filterMap.mp hrt
    exact ⟨r, hr, rt, hr', hlegal, htarget⟩
  · obtain ⟨r, hr, rt, hr', hlegal, htarget⟩ := h
    exact ⟨rt, List.mem_filterMap.mpr ⟨r, hr, hr'⟩, hlegal, htarget⟩

end

/-- The current view and the loop accept the same retractions exactly where every row that a legal
retraction targets is targeted from a confirmed row of its token. -/
theorem retractions_mirror_iff (t : RecentEvents) (workspaceId : Int64) (tokenIdentity : String) :
    RetractionsMirror t workspaceId tokenIdentity ↔ RetractionsAnchored t workspaceId tokenIdentity := by
  refine forall₂_congr fun e he => ?_
  rw [hidden_iff he, downgraded_row_iff he]
  refine ⟨fun h => h.mpr, fun h => ⟨fun h' => ?_, h⟩⟩
  -- what the clause accepts, the loop accepts too
  obtain ⟨-, r, hr, htargets, -⟩ := h'
  exact ⟨r, hr, htargets⟩

/-! ## A retraction that is not confirmed -/

def disclosed : RecentEvent where
  eventId := "r1"
  eventType := "relation"
  anchorIdentity := "solana:AAA"
  relatedIdentities := [⟨.token, "solana:BBB"⟩]
  chainQualifiedContract := "solana:AAA"
  occurredAt := 0
  observedAt := 0
  relation := some .sameDeployer
  truthStatus := .confirmed
  confidence := none
  confidenceLevel := .exact
  evidenceRefs := ["tx"]
  dependencyGroup := none
  freshness := none
  coverage := .full
  capabilityStatus := .available
  missingInputs := []
  retraction := none
  isCurrentCoverage := false

/-- A retraction of the relation, in a row of the truth status. -/
def retraction (truthStatus : TruthStatus) : RecentEvent :=
  { disclosed with
    eventId := "r2"
    eventType := "retraction"
    relation := none
    truthStatus := truthStatus
    retraction := some ⟨"r1", 0, .erroneous⟩ }

/-- The relation and its retraction are appended. -/
def retractedTable (truthStatus : TruthStatus) : RecentEvents :=
  let t : RecentEvents := Table.empty
  let t := (t.insert (disclosed.toRow 1) ⟨⟨rfl, rfl⟩, Or.inl rfl⟩).1
  (t.insert ((retraction truthStatus).toRow 1) ⟨⟨rfl, rfl⟩, Or.inl rfl⟩).1

/-- A retraction that is not confirmed leaves the relation in the view, and the loop downgrades it. -/
theorem unconfirmed_retraction : ¬ RetractionsMirror (retractedTable .unknown) 1 "solana:AAA" := by
  intro h
  have hmem : disclosed.toRow 1 ∈ confirmedRows (retractedTable .unknown) 1 "solana:AAA" := by decide
  have hdown := (h _ hmem).mpr ((downgraded_row_iff hmem).mpr
    ⟨(retraction .unknown).toRow 1, by decide, _, rfl, by decide, rfl⟩)
  revert hdown
  decide

end WhaleIntelligence.Recent
