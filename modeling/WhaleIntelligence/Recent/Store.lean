import WhaleIntelligence.Lib.SerialTable
import WhaleIntelligence.Recent.Resolver

/- The store of recent events, and the social identities beside it.

   `recent_events` is an append-only table with a serial id, unique on
   (workspace, event id), whose checks are part of its type: the three names of
   the anchor agree, and a row with missing inputs does not claim full coverage.
   The only write is `appendRecentEventOn`. The jsonb columns hold their decoded
   lists; a time is kept to the microsecond, counted from 2000 and truncated.

   The reads are the ones the pipeline and the API use: the semantic comparison
   with rows of earlier encodings, the current view of the relations, and the
   social records behind the resolver's authority. -/
namespace WhaleIntelligence.Recent
open WhaleIntelligence FirstWins SerialTable

/-! ## Rows -/

/-- A row of `recent_events`, without its serial id. -/
structure RecentEventRow where
  workspaceId : Int64
  eventId : String
  tokenIdentity : String
  eventType : String
  anchorIdentity : String
  relatedIdentities : List IdentityKey
  chainQualifiedContract : String
  occurredAt : DateTime
  observedAt : DateTime
  relation : Option RecentRelation
  truthStatus : String
  confidence : Option Rat
  confidenceLevel : String
  evidenceRefs : List String
  dependencyGroup : Option String
  freshness : Option Freshness
  coverage : String
  capabilityStatus : String
  missingInputs : List String
  retraction : Option Retraction
  deriving DecidableEq, Repr

/-- The unique index. -/
def RecentEventRow.uniqueKey (r : RecentEventRow) : Int64 × String := (r.workspaceId, r.eventId)

/-- The CHECK constraints that the append relies on. -/
structure RecentEventRow.Check (r : RecentEventRow) : Prop where
  anchorInvariant : r.anchorIdentity = r.chainQualifiedContract ∧ r.chainQualifiedContract = r.tokenIdentity
  missingNotFull : r.missingInputs = [] ∨ r.coverage ≠ "full"

abbrev RecentEvents := Table RecentEventRow.uniqueKey RecentEventRow.Check

/-- The row an event is bound to. -/
def RecentEvent.toRow (workspaceId : Int64) (e : RecentEvent) : RecentEventRow where
  workspaceId := workspaceId
  eventId := e.eventId
  tokenIdentity := e.anchorIdentity
  eventType := e.eventType
  anchorIdentity := e.anchorIdentity
  relatedIdentities := e.relatedIdentities
  chainQualifiedContract := e.chainQualifiedContract
  occurredAt := pgTime e.occurredAt
  observedAt := pgTime e.observedAt
  relation := e.relation
  truthStatus := truthStatusStr e.truthStatus
  confidence := e.confidence
  confidenceLevel := e.confidenceLevel.asStr
  evidenceRefs := e.evidenceRefs
  dependencyGroup := e.dependencyGroup
  freshness := e.freshness
  coverage := coverageStr e.coverage
  capabilityStatus := capabilityStr e.capabilityStatus
  missingInputs := e.missingInputs
  retraction := e.retraction

/-- `RecentEventRow::into_event`. -/
def RecentEventRow.intoEvent (isCurrentCoverage : Bool) (r : RecentEventRow) : RecentEvent where
  eventId := r.eventId
  eventType := r.eventType
  anchorIdentity := r.anchorIdentity
  relatedIdentities := r.relatedIdentities
  chainQualifiedContract := r.chainQualifiedContract
  occurredAt := r.occurredAt
  observedAt := r.observedAt
  relation := r.relation
  truthStatus := truthStatusFromStr r.truthStatus
  confidence := r.confidence
  confidenceLevel := confidenceFromStr r.confidenceLevel
  evidenceRefs := r.evidenceRefs
  dependencyGroup := r.dependencyGroup
  freshness := r.freshness
  coverage := coverageFromStr r.coverage
  capabilityStatus := capabilityFromStr r.capabilityStatus
  missingInputs := r.missingInputs
  retraction := r.retraction
  isCurrentCoverage := isCurrentCoverage

/-! ## Append -/

inductive AppendError where
  | anchorMismatch
  | fullWithMissing (missing : List String)
  deriving DecidableEq, Repr

/-- The text of the error, the names in the list being plain ones. -/
def AppendError.message : AppendError → String
  | .anchorMismatch => "anchor_identity != chain_qualified_contract"
  | .fullWithMissing missing =>
    "coverage=full contradicts missing_inputs=[" ++ ", ".intercalate (missing.map fun m => "\"" ++ m ++ "\"") ++
      "]: an absent input means coverage is not full, and \"no relation\" must not read as \"no reuse\""

/-- The guards of the append establish the checks of the table. -/
theorem toRow_check (workspaceId : Int64) {e : RecentEvent} (ha : e.anchorIdentity = e.chainQualifiedContract)
    (hm : ¬ (e.missingInputs ≠ [] ∧ e.coverage = .full)) : (e.toRow workspaceId).Check := by
  refine ⟨⟨ha, ha.symm⟩, ?_⟩
  by_cases he : e.missingInputs = []
  · exact Or.inl he
  · refine Or.inr fun hc => hm ⟨he, ?_⟩
    rw [← coverageFromStr_str e.coverage, show coverageStr e.coverage = "full" from hc]
    rfl

/-- Append an event unless its id exists in the workspace; `true` if it was appended. -/
def appendRecentEventOn (t : RecentEvents) (workspaceId : Int64) (e : RecentEvent) :
    Except AppendError (RecentEvents × Bool) :=
  if ha : e.anchorIdentity = e.chainQualifiedContract then
    if hm : e.missingInputs ≠ [] ∧ e.coverage = .full then .error (.fullWithMissing e.missingInputs)
    else
      let inserted := t.insert (e.toRow workspaceId) (toRow_check workspaceId ha hm)
      .ok (inserted.1, inserted.2.isSome)
  else .error .anchorMismatch

/-! ## The comparison with rows of earlier encodings -/

/-- The order of pairs of texts. -/
def pairLe (a b : String × String) : Prop := a.1 < b.1 ∨ (a.1 = b.1 ∧ a.2 ≤ b.2)

instance : DecidableRel pairLe := fun _ _ => inferInstanceAs (Decidable (_ ∨ _))

def identitySet (e : RecentEvent) : List (String × String) :=
  Canon.canon pairLe (e.relatedIdentities.map fun i => (i.kind.asStr, i.value))

def stringSet (items : List String) : List String := Canon.canon (· ≤ ·) items

/-- Whether two events assert one fact, whatever row and time they have. -/
def samePublishedFact (stored candidate : RecentEvent) : Bool :=
  let core := stored.eventType == candidate.eventType &&
    stored.anchorIdentity == candidate.anchorIdentity &&
    stored.chainQualifiedContract == candidate.chainQualifiedContract &&
    stored.relation == candidate.relation &&
    stored.confidenceLevel == candidate.confidenceLevel &&
    identitySet stored == identitySet candidate &&
    stringSet stored.evidenceRefs == stringSet candidate.evidenceRefs
  if !core then false
  else if candidate.eventType == "coverage_disclosure" then
    stored.coverage == candidate.coverage && stringSet stored.missingInputs == stringSet candidate.missingInputs
  else true

/-- Whether a row under one of the superseded keys asserts the event's fact. -/
def legacyRowPublishesTheSameFact (t : RecentEvents) (workspaceId : Int64) (legacyKeys : List String)
    (e : RecentEvent) : Bool :=
  if legacyKeys.isEmpty then false
  else (t.rows.filter fun r => r.2.workspaceId == workspaceId && legacyKeys.contains r.2.eventId).any
    fun r => samePublishedFact (r.2.intoEvent false) e

/-! ## The current view of the relations -/

/-- Whether `r` is a valid retraction of `e`. -/
def retracts (r e : RecentEventRow) : Bool :=
  r.workspaceId == e.workspaceId && r.tokenIdentity == e.tokenIdentity && r.truthStatus == "confirmed" &&
    match r.retraction with
    | none => false
    | some rt => rt.targetEventId != "" && rt.targetEventId == e.eventId &&
      (rt.truthStatus == .superseded || rt.truthStatus == .erroneous)

/-- The rows the current view is built from. -/
def inCurrentView (t : RecentEvents) (workspaceId : Int64) (tokenIdentity : String) (e : RecentEventRow) : Bool :=
  e.workspaceId == workspaceId && e.tokenIdentity == tokenIdentity && e.relation.isSome &&
    e.truthStatus == "confirmed" && !t.rows.any fun r => retracts r.2 e

/-- One candidate for each identity a row relates. -/
def RecentEventRow.candidates (r : RecentEventRow) : List CandidateRelation :=
  match r.relation with
  | none => []
  | some relation =>
    r.relatedIdentities.map fun k => ⟨k, relation, confidenceFromStr r.confidenceLevel, r.evidenceRefs⟩

/-- The corroborated relations of a token: the newest row for each relation,
target kind and target value. -/
def fetchRelations (t : RecentEvents) (workspaceId : Int64) (tokenIdentity : String) : List CandidateRelation :=
  -- newest first, so the first of a key is the one in force
  firstWins CandidateRelation.key
    ((newestFirst RecentEventRow.occurredAt
      (t.rows.filter fun r => inCurrentView t workspaceId tokenIdentity r.2)).flatMap fun r => r.2.candidates)

/-! ## Social identities -/

/-- A row of `social_identities_current`. -/
structure SocialIdentityRow where
  workspaceId : Int64
  platform : String
  immutableUserId : String
  currentHandle : Option String
  historicalHandles : List String
  deriving DecidableEq, Repr

structure StoredSocialIdentity where
  platform : String
  immutableUserId : String
  handles : List String
  deriving DecidableEq, Repr

/-- The accounts of a workspace, the current handle listed after the historical ones. -/
def fetchSocialIdentities (rows : List SocialIdentityRow) (workspaceId : Int64) : List StoredSocialIdentity :=
  (rows.filter (·.workspaceId == workspaceId)).map fun r =>
    let handles := match r.currentHandle with
      | some current => if trim current = "" then r.historicalHandles else r.historicalHandles ++ [current]
      | none => r.historicalHandles
    ⟨r.platform, r.immutableUserId, handles⟩

/-- The usable rows: platform and id present, the id not among the handles. -/
def recordsFromStore (rows : List StoredSocialIdentity) : List SocialIdentityRecord :=
  rows.filterMap fun r =>
    let platform := toAsciiLowercase (trim r.platform)
    let id := trim r.immutableUserId
    if platform = "" ∨ id = "" then none
    else if r.handles.any fun h => eqIgnoreAsciiCase (trim h) id then none
    else some ⟨platform, id, r.handles⟩

def resolveCandidatesFromStore (x : Crates) (social : List SocialIdentityRow) (workspaceId : Int64)
    (anchor : ActorExtraction) (nodes : List EntityNode) (edges : List EntityEdge) (nowSecs : Int) :
    List CandidateRelation :=
  resolveCandidates x anchor nodes edges (recordsFromStore (fetchSocialIdentities social workspaceId)) nowSecs

/-! ## Times -/

theorem pgTime_mono {s t : Int} (h : s ≤ t) : pgTime s ≤ pgTime t := by
  have hdiv : (s - pgEpoch).tdiv 1000 ≤ (t - pgEpoch).tdiv 1000 := Int.tdiv_le_tdiv (by decide) (by omega)
  unfold pgTime
  omega

/-- A time read back is less than a microsecond away. -/
theorem pgTime_near (t : Int) : numSeconds (t - pgTime t) = 0 := by
  have hsplit := Int.mul_tdiv_add_tmod (t - pgEpoch) 1000
  have hlt : (t - pgEpoch).tmod 1000 < 1000 := Int.tmod_lt_of_pos _ (by decide)
  have hgt : -1000 < (t - pgEpoch).tmod 1000 := Int.lt_tmod_of_pos _ (by decide)
  have hrest : t - pgTime t = (t - pgEpoch).tmod 1000 := by
    unfold pgTime
    omega
  rw [numSeconds, hrest]
  rcases le_total 0 ((t - pgEpoch).tmod 1000) with h | h
  · exact Int.tdiv_eq_zero_of_lt h (by omega)
  · have hneg : (-(t - pgEpoch).tmod 1000).tdiv 1000000000 = 0 := Int.tdiv_eq_zero_of_lt (by omega) (by omega)
    rw [Int.neg_tdiv] at hneg
    omega

/-! ## What a row says -/

/-- A stored event reads back as it was, its times to the microsecond. -/
theorem toRow_intoEvent (ws : Int64) (isCurrentCoverage : Bool) (e : RecentEvent) :
    (e.toRow ws).intoEvent isCurrentCoverage = { e with
      occurredAt := pgTime e.occurredAt
      observedAt := pgTime e.observedAt
      isCurrentCoverage := isCurrentCoverage } := by
  simp only [RecentEventRow.intoEvent, RecentEvent.toRow, truthStatusFromStr_str, confidenceFromStr_asStr,
    coverageFromStr_str, capabilityFromStr_str]

/-! ## Append -/

section
variable {t : RecentEvents} {ws : Int64} {e : RecentEvent}

/-- The comparison with superseded rows finds a row of the workspace under one of the keys. -/
theorem legacyRow_iff {legacyKeys : List String} :
    legacyRowPublishesTheSameFact t ws legacyKeys e = true ↔
      ∃ r ∈ t.rows, r.2.workspaceId = ws ∧ r.2.eventId ∈ legacyKeys ∧
        samePublishedFact (r.2.intoEvent false) e = true := by
  unfold legacyRowPublishesTheSameFact
  cases legacyKeys with
  | nil => simp
  | cons key keys =>
    simp only [List.isEmpty_cons, Bool.false_eq_true, if_false, List.any_eq_true, List.mem_filter,
      Bool.and_eq_true, beq_iff_eq, List.contains_eq_mem, decide_eq_true_eq, and_assoc]

theorem appendRecentEventOn_new (ha : e.anchorIdentity = e.chainQualifiedContract)
    (hm : ¬ (e.missingInputs ≠ [] ∧ e.coverage = .full)) (hk : (e.toRow ws).uniqueKey ∉ t.keys) :
    appendRecentEventOn t ws e = .ok (t.push (e.toRow ws) hk (toRow_check ws ha hm), true) := by
  rw [appendRecentEventOn, dif_pos ha, dif_neg hm]
  simp only [Table.insert_new hk, Option.isSome_some]

theorem appendRecentEventOn_conflict (ha : e.anchorIdentity = e.chainQualifiedContract)
    (hm : ¬ (e.missingInputs ≠ [] ∧ e.coverage = .full)) (hk : (e.toRow ws).uniqueKey ∈ t.keys) :
    appendRecentEventOn t ws e = .ok (t.skip, false) := by
  rw [appendRecentEventOn, dif_pos ha, dif_neg hm]
  simp only [Table.insert_conflict hk, Option.isSome_none]

end

end WhaleIntelligence.Recent
