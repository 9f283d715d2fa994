import WhaleIntelligence.Recent.EventKeys
import WhaleIntelligence.Recent.Store

/- One pass of the pipeline, `run_for_anchor`, and runs of passes.

   A triggered pass resolves the candidates of its anchor, publishes each of
   them as a relation event, and then discloses the coverage it had: which of the
   actor inputs were missing. A pass writes through the append of the store only,
   so what it does to the table is said by two step lemmas: a candidate adds its
   own row or nothing (`publishCandidate_step`), and so does the disclosure
   (`disclose_step`). Neither ever fails. -/
namespace WhaleIntelligence.Recent
open WhaleIntelligence SerialTable

/-! ## The activation gate -/

inductive TokenLifecycle where
  | created | preGraduation | migrated | firstLiquidity | active | cooling | dormant | archived | tombstoned
  deriving DecidableEq, Repr

inductive ActivationTrigger where
  | firstLiquidity | migration | credibleCaller | smartWalletEntry | freshWalletBurst | revivalWake
  | volumeActivation | socialProfileChange | operatorRequest
  deriving DecidableEq, Repr

/-- No trigger means no lookup; a dormant or dead token is woken by a revival or
an operator only. -/
def shouldTriggerLookup (lifecycle : TokenLifecycle) : Option ActivationTrigger → Bool
  | none => false
  | some trigger =>
    match lifecycle with
    | .dormant | .archived | .tombstoned => trigger == .revivalWake || trigger == .operatorRequest
    | _ => true

/-! ## The events of a pass -/

structure PipelineOutcome where
  resolved : Nat
  appended : Nat
  duplicates : Nat
  disclosedPartialCoverage : Bool
  disclosedFullCoverage : Bool
  skippedNotTriggered : Bool
  deriving DecidableEq, Repr

def PipelineOutcome.default : PipelineOutcome := ⟨0, 0, 0, false, false, false⟩

/-- An append that failed, and what the pass was doing. -/
structure PipelineError where
  context : String
  cause : AppendError
  deriving DecidableEq, Repr

/-- The authoritative actor inputs that the anchor lacks. -/
def missingActorInputs (anchor : ActorExtraction) : List String :=
  (if anchor.deployer.isNone then ["deployer"] else []) ++
    (if anchor.authority.isNone then ["authority"] else []) ++
    (if anchor.initialFunder.isNone then ["initial_funder"] else [])

def coverageOf (missing : List String) : Coverage := if missing.isEmpty then .full else .degraded

def capabilityOf (missing : List String) : CapabilityStatus :=
  if missing.length = 3 then .insufficient else .available

section
variable (x : Crates) (workspace : WorkspaceScope) (anchor : ActorExtraction) (now : DateTime)

/-- The key of a candidate under the current encoding. -/
def candidateKey (c : CandidateRelation) : String :=
  relationEventKey x workspace anchor.token c.relation.asStr c.toIdentity.value c.toIdentity.kind c.confidence
    c.evidenceRefs

def candidateLegacyKeys (c : CandidateRelation) : List String :=
  legacyRelationEventKeys x workspace anchor.token c.relation.asStr c.toIdentity.value c.toIdentity.kind
    c.confidence c.evidenceRefs

/-- The event that publishes a candidate. -/
def relationEvent (c : CandidateRelation) : RecentEvent where
  eventId := candidateKey x workspace anchor c
  eventType := "relation_resolved"
  anchorIdentity := anchor.token
  relatedIdentities := [c.toIdentity]
  chainQualifiedContract := anchor.token
  occurredAt := now
  observedAt := now
  relation := some c.relation
  truthStatus := .confirmed
  confidence := none
  confidenceLevel := c.confidence
  evidenceRefs := c.evidenceRefs
  dependencyGroup := none
  freshness := none
  coverage := coverageOf (missingActorInputs anchor)
  capabilityStatus := capabilityOf (missingActorInputs anchor)
  missingInputs := missingActorInputs anchor
  retraction := none
  isCurrentCoverage := false

def refreshBucket : Int64 := Int64.ofInt ((timestamp now).tdiv coverageRefreshSeconds)

/-- The event that discloses the coverage of the pass, after the state `predecessor`. -/
def coverageEvent (predecessor : String) : RecentEvent where
  eventId := coverageEventKey x workspace anchor.token (missingActorInputs anchor) (refreshBucket now) predecessor
  eventType := "coverage_disclosure"
  anchorIdentity := anchor.token
  relatedIdentities := []
  chainQualifiedContract := anchor.token
  occurredAt := now
  observedAt := now
  relation := none
  truthStatus := .confirmed
  confidence := none
  confidenceLevel := if (missingActorInputs anchor).isEmpty then .exact else .insufficient
  evidenceRefs := []
  dependencyGroup := none
  freshness := none
  coverage := coverageOf (missingActorInputs anchor)
  capabilityStatus := capabilityOf (missingActorInputs anchor)
  missingInputs := missingActorInputs anchor
  retraction := none
  isCurrentCoverage := false

/-! ## The pass -/

/-- Publish one candidate: a duplicate of a row of an earlier encoding, a
duplicate under the current key, or a new row. -/
def publishCandidate (st : RecentEvents × PipelineOutcome) (c : CandidateRelation) :
    Except PipelineError (RecentEvents × PipelineOutcome) :=
  let (t, o) := st
  let event := relationEvent x workspace anchor now c
  -- two tuples can share a superseded key, so its row must assert this one
  if legacyRowPublishesTheSameFact t workspace.id (candidateLegacyKeys x workspace anchor c) event then
    .ok (t, { o with duplicates := o.duplicates + 1 })
  else match appendRecentEventOn t workspace.id event with
    | .error e => .error ⟨"failed to append a resolved relation", e⟩
    | .ok (t, true) => .ok (t, { o with appended := o.appended + 1 })
    | .ok (t, false) => .ok (t, { o with duplicates := o.duplicates + 1 })

def publishAll (st : RecentEvents × PipelineOutcome) (candidates : List CandidateRelation) :
    Except PipelineError (RecentEvents × PipelineOutcome) :=
  candidates.foldlM (publishCandidate x workspace anchor now) st

/-- The disclosures of a token, in insertion order. -/
def disclosures (t : RecentEvents) (workspaceId : Int64) (token : String) : List (Nat × RecentEventRow) :=
  t.rows.filter fun r => r.2.workspaceId == workspaceId && r.2.anchorIdentity == token &&
    r.2.eventType == "coverage_disclosure"

/-- The coverage state in force: the newest disclosure. -/
def latestDisclosure (t : RecentEvents) (workspaceId : Int64) (token : String) : Option (Nat × RecentEventRow) :=
  (newestFirst RecentEventRow.occurredAt (disclosures t workspaceId token)).head?

/-- Whether the set in force is another one, or there is none. -/
def coverageChanged (latest : Option (Nat × RecentEventRow)) : Bool :=
  latest.map (·.2.missingInputs) != some (missingActorInputs anchor)

/-- Whether the state in force is due for a refresh, or there is none. -/
def coverageStale (latest : Option (Nat × RecentEventRow)) : Bool :=
  match latest with
  | none => true
  | some r => decide (coverageRefreshSeconds ≤ numSeconds (now - r.2.occurredAt))

/-- Whether nothing was ever disclosed and there is nothing to disclose. -/
def firstAndFull (latest : Option (Nat × RecentEventRow)) : Bool :=
  latest.isNone && (missingActorInputs anchor).isEmpty

/-- Whether the pass has to publish its coverage. -/
def mustDisclose (latest : Option (Nat × RecentEventRow)) : Bool :=
  (coverageChanged anchor latest || coverageStale now latest) && !firstAndFull anchor latest

/-- The event id that the disclosure of the pass supersedes, empty at the first one. -/
def predecessorId (t : RecentEvents) : String :=
  ((latestDisclosure t workspace.id anchor.token).map (·.2.eventId)).getD ""

/-- Publish the coverage of the pass when it changed or is due. -/
def disclose (st : RecentEvents × PipelineOutcome) : Except PipelineError (RecentEvents × PipelineOutcome) :=
  let (t, o) := st
  let latest := latestDisclosure t workspace.id anchor.token
  if mustDisclose anchor now latest then
    -- the id in force makes the key of a state that returns a new one
    let predecessor := predecessorId workspace anchor t
    let event := coverageEvent x workspace anchor now predecessor
    let legacyKeys := legacyCoverageEventKeys x workspace anchor.token (missingActorInputs anchor)
      (refreshBucket now) predecessor
    if legacyRowPublishesTheSameFact t workspace.id legacyKeys event then .ok (t, o)
    else match appendRecentEventOn t workspace.id event with
      | .error e => .error ⟨"failed to append the coverage state", e⟩
      | .ok (t, true) =>
        .ok (t, { o with
          disclosedPartialCoverage := !(missingActorInputs anchor).isEmpty
          disclosedFullCoverage := (missingActorInputs anchor).isEmpty })
      | .ok (t, false) => .ok (t, o)
  else .ok (t, o)

variable (social : List SocialIdentityRow) (nodes : List EntityNode) (edges : List EntityEdge)

/-- The candidates of a pass. -/
def passCandidates : List CandidateRelation :=
  resolveCandidatesFromStore x social workspace.id anchor nodes edges (timestamp now)

def runForAnchor (t : RecentEvents) (lifecycle : TokenLifecycle) (trigger : Option ActivationTrigger) :
    Except PipelineError (RecentEvents × PipelineOutcome) :=
  if !shouldTriggerLookup lifecycle trigger then
    .ok (t, { PipelineOutcome.default with skippedNotTriggered := true })
  else
    let candidates := passCandidates x workspace anchor now social nodes edges
    match publishAll x workspace anchor now (t, { PipelineOutcome.default with resolved := candidates.length })
        candidates with
    | .error e => .error e
    | .ok st => disclose x workspace anchor now st

end

/-! ## Runs -/

/-- The inputs of one pass; `social` is the content of `social_identities_current`. -/
structure Pass where
  lifecycle : TokenLifecycle
  trigger : Option ActivationTrigger
  anchor : ActorExtraction
  nodes : List EntityNode
  edges : List EntityEdge
  social : List SocialIdentityRow
  now : DateTime

def Pass.Triggered (p : Pass) : Prop := shouldTriggerLookup p.lifecycle p.trigger = true

def Pass.candidates (x : Crates) (workspace : WorkspaceScope) (p : Pass) : List CandidateRelation :=
  passCandidates x workspace p.anchor p.now p.social p.nodes p.edges

def runPass (x : Crates) (workspace : WorkspaceScope) (t : RecentEvents) (p : Pass) :
    Except PipelineError (RecentEvents × PipelineOutcome) :=
  runForAnchor x workspace p.anchor p.now p.social p.nodes p.edges t p.lifecycle p.trigger

/-- A run of passes, one after the other. -/
def runPasses (x : Crates) (workspace : WorkspaceScope) (t : RecentEvents) (passes : List Pass) :
    Except PipelineError RecentEvents :=
  passes.foldlM (fun t p => (runPass x workspace t p).map Prod.fst) t

/-! ## What a step does to the table -/

section
variable {x : Crates} {workspace : WorkspaceScope} {anchor : ActorExtraction} {now : DateTime}

theorem coverageOf_checked (missing : List String) : ¬ (missing ≠ [] ∧ coverageOf missing = .full) := by
  intro h
  obtain ⟨hne, hfull⟩ := h
  unfold coverageOf at hfull
  cases missing with
  | nil => exact hne rfl
  | cons => cases hfull

/-- The row that publishes a candidate. -/
def relationRow (x : Crates) (workspace : WorkspaceScope) (anchor : ActorExtraction) (now : DateTime)
    (c : CandidateRelation) : RecentEventRow := (relationEvent x workspace anchor now c).toRow workspace.id

/-- The row that discloses the coverage of the pass. -/
def coverageRow (x : Crates) (workspace : WorkspaceScope) (anchor : ActorExtraction) (now : DateTime)
    (predecessor : String) : RecentEventRow :=
  (coverageEvent x workspace anchor now predecessor).toRow workspace.id

/-- A row under one of the candidate's keys stands for it: a row under a superseded
key that asserts its fact, or any row under the current one. -/
def CandidateStored (x : Crates) (workspace : WorkspaceScope) (anchor : ActorExtraction) (now : DateTime)
    (t : RecentEvents) (c : CandidateRelation) : Prop :=
  legacyRowPublishesTheSameFact t workspace.id (candidateLegacyKeys x workspace anchor c)
    (relationEvent x workspace anchor now c) = true ∨
  (workspace.id, candidateKey x workspace anchor c) ∈ t.keys

variable (x workspace anchor now)

/-- A candidate adds its row, unless a row under one of its keys stands for it. -/
theorem publishCandidate_step (t : RecentEvents) (o : PipelineOutcome) (c : CandidateRelation) :
    ∃ t' o', publishCandidate x workspace anchor now (t, o) c = .ok (t', o') ∧
      ((CandidateStored x workspace anchor now t c ∧ t'.rows = t.rows) ∨
        (¬ CandidateStored x workspace anchor now t c ∧
          t'.rows = t.rows ++ [(t.nextId, relationRow x workspace anchor now c)])) := by
  by_cases hl : legacyRowPublishesTheSameFact t workspace.id (candidateLegacyKeys x workspace anchor c)
      (relationEvent x workspace anchor now c) = true
  · exact ⟨t, { o with duplicates := o.duplicates + 1 }, if_pos hl, Or.inl ⟨Or.inl hl, rfl⟩⟩
  · have happend : publishCandidate x workspace anchor now (t, o) c =
        match appendRecentEventOn t workspace.id (relationEvent x workspace anchor now c) with
        | .error e => .error ⟨"failed to append a resolved relation", e⟩
        | .ok (t, true) => .ok (t, { o with appended := o.appended + 1 })
        | .ok (t, false) => .ok (t, { o with duplicates := o.duplicates + 1 }) := if_neg hl
    by_cases hk : ((relationEvent x workspace anchor now c).toRow workspace.id).uniqueKey ∈ t.keys
    · rw [happend, appendRecentEventOn_conflict rfl (coverageOf_checked _) hk]
      exact ⟨_, _, rfl, Or.inl ⟨Or.inr hk, rfl⟩⟩
    · rw [happend, appendRecentEventOn_new rfl (coverageOf_checked _) hk]
      exact ⟨_, _, rfl, Or.inr ⟨not_or.mpr ⟨hl, hk⟩, rfl⟩⟩

/-- What the candidates add to the table: rows of theirs, behind the old ones. -/
theorem publishAll_ok : ∀ (cs : List CandidateRelation) (t : RecentEvents) (o : PipelineOutcome),
    ∃ t' o' added, publishAll x workspace anchor now (t, o) cs = .ok (t', o') ∧ t'.rows = t.rows ++ added ∧
      ∀ r ∈ added, ∃ c ∈ cs, r.2 = relationRow x workspace anchor now c
  | [], t, o => ⟨t, o, [], rfl, by simp, by simp⟩
  | c :: cs, t, o => by
    obtain ⟨t₁, o₁, h₁, hrows₁⟩ := publishCandidate_step x workspace anchor now t o c
    obtain ⟨t₂, o₂, added, h₂, hrows₂, hadded⟩ := publishAll_ok cs t₁ o₁
    have hrun : publishAll x workspace anchor now (t, o) (c :: cs) = .ok (t₂, o₂) := by
      rw [publishAll, List.foldlM_cons, h₁]
      exact h₂
    have hold : ∀ r ∈ added, ∃ d ∈ c :: cs, r.2 = relationRow x workspace anchor now d := fun r hr => by
      obtain ⟨d, hd, hrd⟩ := hadded r hr
      exact ⟨d, List.mem_cons_of_mem _ hd, hrd⟩
    rcases hrows₁ with ⟨-, hrows₁⟩ | ⟨-, hrows₁⟩
    · exact ⟨t₂, o₂, added, hrun, by rw [hrows₂, hrows₁], hold⟩
    · refine ⟨t₂, o₂, (t.nextId, relationRow x workspace anchor now c) :: added, hrun, ?_, ?_⟩
      · rw [hrows₂, hrows₁, List.append_assoc, List.singleton_append]
      · intro r hr
        rcases List.mem_cons.mp hr with rfl | hr
        · exact ⟨c, List.mem_cons_self, rfl⟩
        · exact hold r hr

/-- A row under one of the keys of the pass's disclosure stands for it. -/
def DisclosureStored (x : Crates) (workspace : WorkspaceScope) (anchor : ActorExtraction) (now : DateTime)
    (t : RecentEvents) : Prop :=
  legacyRowPublishesTheSameFact t workspace.id
    (legacyCoverageEventKeys x workspace anchor.token (missingActorInputs anchor) (refreshBucket now)
      (predecessorId workspace anchor t))
    (coverageEvent x workspace anchor now (predecessorId workspace anchor t)) = true ∨
  (workspace.id, (coverageEvent x workspace anchor now (predecessorId workspace anchor t)).eventId) ∈ t.keys

/-- The disclosure adds its row when it is due and no row stands for it. -/
theorem disclose_step (t : RecentEvents) (o : PipelineOutcome) :
    ∃ t' o', disclose x workspace anchor now (t, o) = .ok (t', o') ∧
      ((mustDisclose anchor now (latestDisclosure t workspace.id anchor.token) = true ∧
          ¬ DisclosureStored x workspace anchor now t ∧
          t'.rows = t.rows ++ [(t.nextId, coverageRow x workspace anchor now (predecessorId workspace anchor t))]) ∨
        ((mustDisclose anchor now (latestDisclosure t workspace.id anchor.token) = false ∨
          DisclosureStored x workspace anchor now t) ∧ t'.rows = t.rows)) := by
  cases hm : mustDisclose anchor now (latestDisclosure t workspace.id anchor.token)
  · exact ⟨t, o, if_neg (by rw [hm]; decide), Or.inr ⟨Or.inl rfl, rfl⟩⟩
  · have hdue : disclose x workspace anchor now (t, o) = _ := if_pos hm
    by_cases hl : legacyRowPublishesTheSameFact t workspace.id
        (legacyCoverageEventKeys x workspace anchor.token (missingActorInputs anchor) (refreshBucket now)
          (predecessorId workspace anchor t))
        (coverageEvent x workspace anchor now (predecessorId workspace anchor t)) = true
    · exact ⟨t, o, hdue.trans (if_pos hl), Or.inr ⟨Or.inr (Or.inl hl), rfl⟩⟩
    · have happend : disclose x workspace anchor now (t, o) =
          match appendRecentEventOn t workspace.id
            (coverageEvent x workspace anchor now (predecessorId workspace anchor t)) with
          | .error e => .error ⟨"failed to append the coverage state", e⟩
          | .ok (t, true) =>
            .ok (t, { o with
              disclosedPartialCoverage := !(missingActorInputs anchor).isEmpty
              disclosedFullCoverage := (missingActorInputs anchor).isEmpty })
          | .ok (t, false) => .ok (t, o) := hdue.trans (if_neg hl)
      by_cases hk : ((coverageEvent x workspace anchor now (predecessorId workspace anchor t)).toRow
          workspace.id).uniqueKey ∈ t.keys
      · rw [happend, appendRecentEventOn_conflict rfl (coverageOf_checked _) hk]
        exact ⟨_, _, rfl, Or.inr ⟨Or.inr (Or.inr hk), rfl⟩⟩
      · rw [happend, appendRecentEventOn_new rfl (coverageOf_checked _) hk]
        exact ⟨_, _, rfl, Or.inl ⟨rfl, not_or.mpr ⟨hl, hk⟩, rfl⟩⟩

variable {x workspace anchor now}

/-! ## Runs of passes -/

/-- The outcome a triggered pass starts from. -/
def Pass.outcome (x : Crates) (workspace : WorkspaceScope) (p : Pass) : PipelineOutcome :=
  { PipelineOutcome.default with resolved := (p.candidates x workspace).length }

/-- A triggered pass publishes its candidates and then discloses its coverage. -/
theorem runPass_eq {p : Pass} (htrig : p.Triggered) (t : RecentEvents) :
    runPass x workspace t p =
      match publishAll x workspace p.anchor p.now (t, p.outcome x workspace) (p.candidates x workspace) with
      | .error e => .error e
      | .ok st => disclose x workspace p.anchor p.now st := by
  rw [runPass, runForAnchor, htrig]
  rfl

theorem runPasses_cons {t t₁ : RecentEvents} {o : PipelineOutcome} {p : Pass}
    (h : runPass x workspace t p = .ok (t₁, o)) (passes : List Pass) :
    runPasses x workspace t (p :: passes) = runPasses x workspace t₁ passes := by
  rw [runPasses, List.foldlM_cons, h]
  rfl

theorem runPasses_append (t : RecentEvents) (passes rest : List Pass) :
    runPasses x workspace t (passes ++ rest) =
      runPasses x workspace t passes >>= fun t => runPasses x workspace t rest := by
  simp only [runPasses, List.foldlM_append]

end

/-- The workspace of the concrete runs. -/
def sampleWorkspace : WorkspaceScope := ⟨7, by decide⟩

/-- The anchor of the concrete runs, of which only the deployer is known. -/
def sampleAnchor : ActorExtraction := ⟨"solana:AAA", some "solana:D", none, none, none, none, []⟩

end WhaleIntelligence.Recent
