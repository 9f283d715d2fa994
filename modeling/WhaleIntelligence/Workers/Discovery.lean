import WhaleIntelligence.Helius.EdgeOwnership
import WhaleIntelligence.Recent.CoverageChain
import WhaleIntelligence.Signals.Replay

/- Token discovery, the caller of the Recent pipeline.

   A pass stores the answer of the provider, puts the tokens that the answer names into
   the table of tokens, and resolves each of them with its funding edges as evidence. The
   graph that it builds for a token has deployments and fundings only, from an anchor
   whose deployer is unknown to wallets, so that no path of the resolver finds a relation
   in it, promoted or not (`candidates_eq_nil`). So discovery says of a token what it
   lacks, and nothing else, and it says so of every token (`discovery_discloses`). -/
namespace WhaleIntelligence.Discovery
open WhaleIntelligence Framing SerialTable Recent
open WhaleIntelligence.Helius (FundingEdge Collation ownedBy earliestTokenFunder insertNew)
open WhaleIntelligence.Replay (GmgnObservation storeGmgnTokenObservation)

/-! ## One token -/

structure TokenFundingEdge where
  fromAddress : String
  toAddress : String
  edgeKind : String
  blockTime : DateTime
  /-- Whether the edge counts for cluster membership. -/
  promoted : Bool
  deriving DecidableEq, Repr

/-- What the database holds when a token is reached, and which of the statements fail there. -/
structure Moment where
  funding : Helius.Store
  /-- The column `promoted` of the funding edges. -/
  promoted : FundingEdge → Bool
  social : List SocialIdentityRow
  insertFails : Bool
  readFails : Bool

/-- A token that a pass reaches. -/
structure Visit where
  workspace : WorkspaceScope
  chain : ChainKind
  mint : String
  observedAt : DateTime
  moment : Moment

/-- The newest 200 edges of a token; those of one time stand as in the table. -/
def tokenOwnedFundingEdges (m : Moment) (chain : ChainKind) (mint : String) : List TokenFundingEdge :=
  (((ownedBy chain mint m.funding.edges).insertionSort fun a b => b.blockTime.getD 0 ≤ a.blockTime.getD 0).take
    200).map fun e => ⟨e.fromAddress, e.toAddress, e.edgeKind, e.blockTime.getD 0, m.promoted e⟩

/-- `format!("{}:{}", chain.as_str(), address)`. -/
def entityKey (chain : ChainKind) (address : String) : String := chain.asStr ++ ":" ++ address

def Visit.token (v : Visit) : String := entityKey v.chain v.mint

/-- The failures of `resolve_recent_for_token`. -/
inductive ResolveError where
  | read
  | pipeline (e : PipelineError)
  deriving DecidableEq, Repr

section
variable {κ : Type} [LinearOrder κ] (x : Crates) (c : Collation κ) (rfc3339 : DateTime → String) (v : Visit)

def walletNode (row : TokenFundingEdge) : EntityNode := ⟨entityKey v.chain row.toAddress, .wallet⟩

def graphEdge (row : TokenFundingEdge) : EntityEdge where
  fromEntityKey := entityKey v.chain row.fromAddress
  toEntityKey := entityKey v.chain row.toAddress
  edgeType := if row.edgeKind = "deploy" then .deployedBy else .fundedBy
  occurredAt := rfc3339 row.blockTime
  -- an edge that is not promoted is no evidence of one actor
  truthStatus := if row.promoted then .confirmed else .unknown
  validFrom := rfc3339 row.blockTime
  validUntil := none
  evidenceRefs := ["funding_edge:" ++ v.chain.asStr ++ ":" ++ row.edgeKind ++ ":" ++
    if row.promoted then "promoted" else "unpromoted"]

/-- The funder of the earliest funding edge is the only actor that is known. -/
def anchorOf : ActorExtraction where
  token := v.token
  deployer := none
  authority := none
  feePayer := none
  factory := none
  initialFunder := (earliestTokenFunder c v.moment.funding v.chain v.mint).map (entityKey v.chain)
  socialIdentities := []

/-- The pass of the pipeline for a token. -/
def passOf : Pass where
  lifecycle := .active
  trigger := some .firstLiquidity
  anchor := anchorOf c v
  nodes := ⟨v.token, .token⟩ :: (tokenOwnedFundingEdges v.moment v.chain v.mint).map (walletNode v)
  edges := (tokenOwnedFundingEdges v.moment v.chain v.mint).map (graphEdge rfc3339 v)
  social := v.moment.social
  now := v.observedAt

def resolveRecentForToken (t : RecentEvents) : Except ResolveError (RecentEvents × PipelineOutcome) :=
  if v.moment.readFails then .error .read
  else (runPass x v.workspace t (passOf c rfc3339 v)).mapError .pipeline

end

/-! ## Passes -/

/-- A row of `tokens`, the columns that the insert leaves to their defaults apart. -/
structure TokenRow where
  chain : String
  mint : String
  firstSeenAt : DateTime
  lifecycleState : String
  deriving DecidableEq, Repr

def TokenRow.key (r : TokenRow) : String × String := (r.chain, r.mint)

structure Db where
  tokens : List TokenRow
  observations : List GmgnObservation
  recent : RecentEvents

/-- The failures that end a pass: the query, the insert of the observation, the insert of a token. -/
inductive DiscoveryError where
  | query | observation | token
  deriving DecidableEq, Repr

/-- A call of `discover_tokens_once`, and what it meets: the answer of the provider, and at each item of it a moment. -/
structure DiscoveryPass where
  workspace : WorkspaceScope
  chain : ChainKind
  answer : Option Json
  observedAt : DateTime
  storeFails : Bool
  env : Nat → Moment

/-- The items of the answer: the first list that is there, provided it is one. -/
def itemsOf (data : Json) : List Json :=
  ((((data.get "pools").or (data.get "items")).or (data.get "tokens")).bind Json.asArray).getD []

def mintOf (item : Json) : String := (((item.get "mint").or (item.get "address")).bind Json.asStr).getD ""

section
variable {κ : Type} [LinearOrder κ] (x : Crates) (c : Collation κ) (rfc3339 : DateTime → String)

/-- A resolution that fails is only logged. -/
def recentAfter (t : RecentEvents) (v : Visit) : RecentEvents :=
  match resolveRecentForToken x c rfc3339 v t with
  | .ok st => st.1
  | .error _ => t

/-- The row that discovery inserts for a token. -/
def Visit.row (v : Visit) : TokenRow := ⟨v.chain.asStr, v.mint, pgTime v.observedAt, "new_creation"⟩

def Db.visit (s : Db) (v : Visit) : Db :=
  { s with tokens := insertNew TokenRow.key s.tokens v.row, recent := recentAfter x c rfc3339 s.recent v }

variable (p : DiscoveryPass)

def DiscoveryPass.visitAt (i : Nat) (item : Json) : Visit := ⟨p.workspace, p.chain, mintOf item, p.observedAt, p.env i⟩

/-- The loop over the items, the first of which is number `i`. -/
def discoverItems : List Json → Nat → Db → Nat → Db × Except DiscoveryError Nat
  | [], _, s, count => (s, .ok count)
  | item :: items, i, s, count =>
    if mintOf item = "" then discoverItems items (i + 1) s count
    else if (p.env i).insertFails then (s, .error .token)
    else discoverItems items (i + 1) (s.visit x c rfc3339 (p.visitAt i item)) (count + 1)

/-- The answer as it is stored. -/
def DiscoveryPass.observation (data : Json) : GmgnObservation :=
  ⟨p.chain.asStr, "trenches_discovery", pgTime p.observedAt, "trenches", data⟩

def discoverTokensOnce (s : Db) : Db × Except DiscoveryError Nat :=
  match p.answer with
  | none => (s, .error .query)
  | some data =>
    if p.storeFails then (s, .error .observation)
    else
      let observations := storeGmgnTokenObservation s.observations (p.observation data)
      discoverItems x c rfc3339 p (itemsOf data) 0 { s with observations := observations } 0

/-- A run of passes. -/
def discoverAll (s : Db) (run : List DiscoveryPass) : Db :=
  run.foldl (fun s p => (discoverTokensOnce x c rfc3339 p s).1) s

/-- The tokens that the loop reaches. -/
def DiscoveryPass.reached : List Json → Nat → List Visit
  | [], _ => []
  | item :: items, i =>
    if mintOf item = "" then DiscoveryPass.reached items (i + 1)
    else if (p.env i).insertFails then []
    else p.visitAt i item :: DiscoveryPass.reached items (i + 1)

def DiscoveryPass.visits : List Visit :=
  match p.answer with
  | none => []
  | some data => if p.storeFails then [] else p.reached (itemsOf data) 0

end

/-! ## The graph of a token -/

section
variable {κ : Type} [LinearOrder κ] {x : Crates} {c : Collation κ} {rfc3339 : DateTime → String} {v : Visit}
  {t t' : RecentEvents}

variable (rfc3339 v) in
theorem graphEdge_type (row : TokenFundingEdge) :
    (graphEdge rfc3339 v row).edgeType = .deployedBy ∨ (graphEdge rfc3339 v row).edgeType = .fundedBy := by
  unfold graphEdge
  by_cases hkind : row.edgeKind = "deploy"
  · exact Or.inl (if_pos hkind)
  · exact Or.inr (if_neg hkind)

/-- The only token of the graph is the anchor. -/
theorem token_of_node {node : EntityNode} (h : node ∈ (passOf c rfc3339 v).nodes) (htype : node.nodeType = .token) :
    node.entityKey = v.token := by
  rcases List.mem_cons.mp h with rfl | h
  · rfl
  · obtain ⟨row, -, rfl⟩ := List.mem_map.mp h
    cases htype

/-- No path of the resolver finds a relation in the graph of a token. -/
theorem candidates_eq_nil : (passOf c rfc3339 v).candidates x v.workspace = [] := by
  apply List.eq_nil_iff_forall_not_mem.mpr
  intro r hr
  obtain ⟨anchorChain, -, hr⟩ := mem_resolveCandidates.mp hr
  obtain ⟨e, he, hr⟩ := mem_emissions.mp (FirstWins.mem_of_mem_firstWins _ hr)
  obtain ⟨row, -, rfl⟩ := List.mem_map.mp he
  have htype := graphEdge_type rfc3339 v row
  simp only [emissions, List.mem_append, List.mem_filterMap, List.mem_flatMap, List.mem_singleton,
    exists_eq_left] at hr
  rcases hr with ((hcross | ⟨node, hnode, hactor⟩) | hfunding) | ⟨identity, hidentity, -⟩
  · -- a deployment on another chain has an edge type of its own
    obtain ⟨hedge, -⟩ := crossChainEmit_eq_some.mp hcross
    rw [hedge] at htype
    simp at htype
  · -- an actor is looked up for the other tokens of the graph, and there is none
    obtain ⟨hother, k, hk, -⟩ := mem_nodeEmits.mp hactor
    obtain ⟨hmem, htoken⟩ := List.mem_filter.mp hnode
    rw [token_of_node hmem (by simpa using htoken)] at hother hk
    have hself : sameToken x v.token v.token = true := sameKey_iff.mpr ⟨k, hk, hk⟩
    rw [show (passOf c rfc3339 v).anchor.token = v.token from rfl, hself] at hother
    cases hother
  · -- the deployer is unknown
    obtain ⟨-, hdeployer, -⟩ := fundingEmit_eq_some.mp hfunding
    cases hdeployer
  · -- and so are the social identities of the token
    cases hidentity

/-! ## The table of events -/

/-- A row under the key of a disclosure is a disclosure of the token of the key. -/
def Keyed (x : Crates) (t : RecentEvents) : Prop :=
  ∀ r ∈ t.rows, ∀ (w : WorkspaceScope) (token : String) (missing : List String) (bucket : Int64)
    (predecessor : String), Fits (utf8 token) →
      r.2.uniqueKey = (w.id, coverageEventKey x w token missing bucket predecessor) →
        r.2.anchorIdentity = token ∧ r.2.eventType = "coverage_disclosure"

/-- What a row says of a token: no relation, and which of its actors are unknown. -/
structure Discloses (c : Collation κ) (v : Visit) (r : RecentEventRow) : Prop where
  read : v.moment.readFails = false
  workspaceId : r.workspaceId = v.workspace.id
  anchorIdentity : r.anchorIdentity = v.token
  eventType : r.eventType = "coverage_disclosure"
  relation : r.relation = none
  relatedIdentities : r.relatedIdentities = []
  retraction : r.retraction = none
  coverage : r.coverage = "degraded"
  missingInputs : r.missingInputs = ["deployer", "authority"] ++
    if (earliestTokenFunder c v.moment.funding v.chain v.mint).isNone then ["initial_funder"] else []

theorem missing_anchorOf : missingActorInputs (anchorOf c v) = ["deployer", "authority"] ++
    if (earliestTokenFunder c v.moment.funding v.chain v.mint).isNone then ["initial_funder"] else [] := by
  simp [missingActorInputs, anchorOf]

theorem discloses_coverageRow (hread : v.moment.readFails = false) (predecessor : String) :
    Discloses c v (coverageRow x v.workspace (anchorOf c v) v.observedAt predecessor) where
  read := hread
  workspaceId := rfl
  anchorIdentity := rfl
  eventType := rfl
  relation := rfl
  relatedIdentities := rfl
  retraction := rfl
  coverage := by
    show coverageStr (coverageOf (missingActorInputs (anchorOf c v))) = "degraded"
    rw [missing_anchorOf]
    rfl
  missingInputs := missing_anchorOf

theorem latestDisclosure_eq_none {ws : Int64} {token : String} :
    latestDisclosure t ws token = none ↔ disclosures t ws token = [] := by
  rw [latestDisclosure, List.head?_eq_none_iff, newestFirst]
  constructor
  · intro h
    have hlength := congrArg List.length h
    rw [List.length_insertionSort, List.length_reverse] at hlength
    exact List.length_eq_zero_iff.mp hlength
  · intro h
    rw [h]
    rfl

theorem mem_disclosures {ws : Int64} {token : String} {r : Nat × RecentEventRow} : r ∈ disclosures t ws token ↔
    r ∈ t.rows ∧ r.2.workspaceId = ws ∧ r.2.anchorIdentity = token ∧ r.2.eventType = "coverage_disclosure" := by
  rw [disclosures, List.mem_filter]
  simp only [Bool.and_eq_true, beq_iff_eq, and_assoc]

/-- Events that assert one fact are of one type and one token. -/
theorem samePublishedFact_token {a b : RecentEvent} (h : samePublishedFact a b = true) :
    a.eventType = b.eventType ∧ a.anchorIdentity = b.anchorIdentity := by
  unfold samePublishedFact at h
  by_contra hne
  rw [if_pos ?_] at h
  · cases h
  · rw [Bool.not_eq_true', Bool.eq_false_iff]
    intro hcore
    simp only [Bool.and_eq_true, beq_iff_eq] at hcore
    exact hne ⟨hcore.1.1.1.1.1.1, hcore.1.1.1.1.1.2⟩

/-- The first disclosure of a token has no row that stands for it. -/
theorem not_stored (hkeyed : Keyed x t) (hfits : Fits (utf8 v.token))
    (hnone : disclosures t v.workspace.id v.token = []) :
    ¬ DisclosureStored x v.workspace (anchorOf c v) v.observedAt t := by
  have hempty : ∀ r ∈ t.rows, r.2.workspaceId = v.workspace.id → r.2.anchorIdentity = v.token →
      r.2.eventType ≠ "coverage_disclosure" := fun r hr hw ha he => by
    have hmem : r ∈ disclosures t v.workspace.id v.token := mem_disclosures.mpr ⟨hr, hw, ha, he⟩
    rw [hnone] at hmem
    cases hmem
  rintro (hlegacy | hcurrent)
  · -- a row of an earlier encoding that asserts the disclosure would be one of the token
    obtain ⟨r, hr, hw, -, hsame⟩ := legacyRow_iff.mp hlegacy
    obtain ⟨he, ha⟩ := samePublishedFact_token hsame
    exact hempty r hr hw ha he
  · -- and so would the row under its own key
    obtain ⟨r, hr, hkey⟩ := Table.mem_keys.mp hcurrent
    obtain ⟨ha, he⟩ := hkeyed r hr v.workspace v.token _ _ _ hfits hkey
    exact hempty r hr (Prod.mk.inj hkey).1 ha he

variable (x c rfc3339) in
/-- A resolution appends a disclosure or nothing, and the first one of a token is appended. -/
theorem recentAfter_step (t : RecentEvents) (v : Visit) :
    ((∃ r, (recentAfter x c rfc3339 t v).rows = t.rows ++ [r] ∧ Discloses c v r.2 ∧
        ∃ predecessor, r.2 = coverageRow x v.workspace (anchorOf c v) v.observedAt predecessor) ∨
      (recentAfter x c rfc3339 t v).rows = t.rows) ∧
    (v.moment.readFails = false → Keyed x t → Fits (utf8 v.token) →
      disclosures (recentAfter x c rfc3339 t v) v.workspace.id v.token ≠ []) := by
  cases hread : v.moment.readFails with
  | true =>
    have hkeep : recentAfter x c rfc3339 t v = t := by
      rw [recentAfter, resolveRecentForToken, if_pos hread]
    exact ⟨Or.inr (by rw [hkeep]), fun h => absurd h (by decide)⟩
  | false =>
    obtain ⟨t', o, hdisclose, hstep⟩ := disclose_step x v.workspace (anchorOf c v) v.observedAt t
      ((passOf c rfc3339 v).outcome x v.workspace)
    have hrun : runPass x v.workspace t (passOf c rfc3339 v) = .ok (t', o) := by
      rw [runPass_eq (show (passOf c rfc3339 v).Triggered from rfl), candidates_eq_nil]
      exact hdisclose
    have hafter : recentAfter x c rfc3339 t v = t' := by
      rw [recentAfter, resolveRecentForToken, if_neg (by rw [hread]; decide), hrun]
      rfl
    rw [hafter]
    rcases hstep with ⟨-, -, hrows⟩ | ⟨hidle, hrows⟩
    · have hnew := discloses_coverageRow (x := x) (c := c) hread (predecessorId v.workspace (anchorOf c v) t)
      refine ⟨Or.inl ⟨_, hrows, hnew, _, rfl⟩, fun _ _ _ hnil => ?_⟩
      have hmem : (t.nextId, coverageRow x v.workspace (anchorOf c v) v.observedAt
          (predecessorId v.workspace (anchorOf c v) t)) ∈ disclosures t' v.workspace.id v.token :=
        mem_disclosures.mpr ⟨by rw [hrows]; simp, rfl, rfl, rfl⟩
      rw [hnil] at hmem
      cases hmem
    · refine ⟨Or.inr hrows, fun _ hkeyed hfits hnil => ?_⟩
      have hnone : disclosures t v.workspace.id v.token = [] := by rw [disclosures, ← hrows, ← disclosures, hnil]
      rcases hidle with hidle | hidle
      · -- the first disclosure is due
        rw [show (anchorOf c v).token = v.token from rfl, latestDisclosure_eq_none.mpr hnone, mustDisclose_none,
          missing_anchorOf] at hidle
        cases hidle
      · exact not_stored hkeyed hfits hnone hidle

theorem coverageKey_token (hsha : Function.Injective x.sha256Hex) {w w' : WorkspaceScope} {token token' : String}
    {missing missing' : List String} {bucket bucket' : Int64} {predecessor predecessor' : String}
    (hfits : Fits (utf8 token)) (hfits' : Fits (utf8 token'))
    (h : coverageEventKey x w token missing bucket predecessor =
      coverageEventKey x w' token' missing' bucket' predecessor') : token = token' := by
  have hpreimage := tagged_injective hsha h
  rw [coveragePreimage_eq, coveragePreimage_eq] at hpreimage
  obtain ⟨-, hrest⟩ := frame_append_inj (fits_i64 _) (fits_i64 _) (List.append_cancel_left hpreimage)
  exact utf8_injective (frame_append_inj hfits hfits' hrest).1

theorem keyed_step (hsha : Function.Injective x.sha256Hex) (hfits : Fits (utf8 v.token)) (h : Keyed x t) :
    Keyed x (recentAfter x c rfc3339 t v) := by
  rcases (recentAfter_step x c rfc3339 t v).1 with ⟨r, hrows, hr, predecessor, hrow⟩ | hrows
  · intro a ha w token missing bucket predecessor' htoken hkey
    rw [hrows] at ha
    rcases List.mem_append.mp ha with ha | ha
    · exact h a ha w token missing bucket predecessor' htoken hkey
    · obtain rfl := List.mem_singleton.mp ha
      refine ⟨?_, hr.eventType⟩
      have hid : a.2.eventId = coverageEventKey x v.workspace v.token (missingActorInputs (anchorOf c v))
          (refreshBucket v.observedAt) predecessor := congrArg RecentEventRow.eventId hrow
      rw [hr.anchorIdentity]
      exact coverageKey_token hsha hfits htoken (hid.symm.trans (Prod.mk.inj hkey).2)
  · intro a ha
    rw [hrows] at ha
    exact h a ha

/-! ## The view of the relations -/

/-- Rows that neither relate nor retract are not seen in the view of the relations. -/
theorem fetchRelations_append {added : List (Nat × RecentEventRow)} (hrows : t'.rows = t.rows ++ added)
    (hadded : ∀ r ∈ added, r.2.relation = none ∧ r.2.retraction = none) (ws : Int64) (token : String) :
    fetchRelations t' ws token = fetchRelations t ws token := by
  have hretracts : ∀ e, (t'.rows.any fun r => retracts r.2 e) = t.rows.any fun r => retracts r.2 e := fun e => by
    have hnone : (added.any fun r => retracts r.2 e) = false := by
      rw [List.any_eq_false]
      intro r hr
      simp [retracts, (hadded r hr).2]
    rw [hrows, List.any_append, hnone, Bool.or_false]
  have hview : (t'.rows.filter fun r => inCurrentView t' ws token r.2) =
      t.rows.filter fun r => inCurrentView t ws token r.2 := by
    have hsame : ∀ e, inCurrentView t' ws token e = inCurrentView t ws token e := fun e => by
      rw [inCurrentView, hretracts, ← inCurrentView]
    have hnone : (added.filter fun r => inCurrentView t ws token r.2) = [] := by
      apply List.filter_eq_nil_iff.mpr
      intro r hr
      simp [inCurrentView, (hadded r hr).1]
    simp only [hsame]
    rw [hrows, List.filter_append, hnone, List.append_nil]
  rw [fetchRelations, hview, ← fetchRelations]

/-! ## Runs -/

variable (x c rfc3339) in
/-- What a list of visits appends. -/
theorem visits_append (visits : List Visit) (t : RecentEvents) : ∃ added,
    (visits.foldl (recentAfter x c rfc3339) t).rows = t.rows ++ added ∧
      ∀ r ∈ added, ∃ v ∈ visits, Discloses c v r.2 := by
  induction visits generalizing t with
  | nil => exact ⟨[], (List.append_nil _).symm, fun r hr => nomatch hr⟩
  | cons v visits ih =>
    obtain ⟨added, hrows, hadded⟩ := ih (recentAfter x c rfc3339 t v)
    have hlater : ∀ r ∈ added, ∃ u ∈ v :: visits, Discloses c u r.2 := fun r hr => by
      obtain ⟨u, hu, hr⟩ := hadded r hr
      exact ⟨u, List.mem_cons_of_mem _ hu, hr⟩
    rw [List.foldl_cons, hrows]
    rcases (recentAfter_step x c rfc3339 t v).1 with ⟨r, hstep, hr, -⟩ | hstep
    · refine ⟨r :: added, by rw [hstep, List.append_assoc, List.singleton_append], ?_⟩
      intro a ha
      rcases List.mem_cons.mp ha with rfl | ha
      · exact ⟨v, List.mem_cons_self, hr⟩
      · exact hlater a ha
    · exact ⟨added, by rw [hstep], hlater⟩

/-- After the visits every token that was read is disclosed. -/
theorem visits_disclosed (hsha : Function.Injective x.sha256Hex) (visits : List Visit)
    (hfits : ∀ v ∈ visits, Fits (utf8 v.token)) (h : Keyed x t) : ∀ v ∈ visits, v.moment.readFails = false →
      disclosures (visits.foldl (recentAfter x c rfc3339) t) v.workspace.id v.token ≠ [] := by
  induction visits generalizing t with
  | nil => exact fun v hv => nomatch hv
  | cons u visits ih =>
    have hu := hfits u List.mem_cons_self
    intro v hv hread
    rw [List.foldl_cons]
    rcases List.mem_cons.mp hv with rfl | hv
    · -- what is disclosed stays in the table
      have hfirst := (recentAfter_step x c rfc3339 t v).2 hread h hu
      obtain ⟨added, hrows, -⟩ := visits_append x c rfc3339 visits (recentAfter x c rfc3339 t v)
      have hkept : disclosures (visits.foldl (recentAfter x c rfc3339) (recentAfter x c rfc3339 t v)) v.workspace.id
          v.token = disclosures (recentAfter x c rfc3339 t v) v.workspace.id v.token ++ _ := disclosures_append hrows
      rw [hkept]
      exact List.append_ne_nil_of_left_ne_nil hfirst _
    · exact ih (fun w hw => hfits w (List.mem_cons_of_mem _ hw)) (keyed_step hsha hu h) v hv hread

theorem foldl_visit (visits : List Visit) (s : Db) :
    (visits.foldl (Db.visit x c rfc3339) s).recent = visits.foldl (recentAfter x c rfc3339) s.recent ∧
      (visits.foldl (Db.visit x c rfc3339) s).tokens =
        (visits.map Visit.row).foldl (insertNew TokenRow.key) s.tokens := by
  induction visits generalizing s with
  | nil => exact ⟨rfl, rfl⟩
  | cons v visits ih => exact ih (s.visit x c rfc3339 v)

variable (p : DiscoveryPass)

theorem discoverItems_eq (items : List Json) (i : Nat) (s : Db) (count : Nat) :
    (discoverItems x c rfc3339 p items i s count).1 = (p.reached items i).foldl (Db.visit x c rfc3339) s := by
  induction items generalizing i s count with
  | nil => rfl
  | cons item items ih =>
    unfold discoverItems DiscoveryPass.reached
    by_cases hname : mintOf item = ""
    · rw [if_pos hname, if_pos hname]
      exact ih ..
    · rw [if_neg hname, if_neg hname]
      by_cases hfail : (p.env i).insertFails = true
      · rw [if_pos hfail, if_pos hfail]
        rfl
      · rw [if_neg hfail, if_neg hfail, List.foldl_cons]
        exact ih ..

variable (x c rfc3339) in
/-- A pass leaves of the events and the tokens what its visits leave. -/
theorem discoverTokensOnce_eq (s : Db) :
    (discoverTokensOnce x c rfc3339 p s).1.recent = p.visits.foldl (recentAfter x c rfc3339) s.recent ∧
      (discoverTokensOnce x c rfc3339 p s).1.tokens =
        (p.visits.map Visit.row).foldl (insertNew TokenRow.key) s.tokens := by
  unfold discoverTokensOnce DiscoveryPass.visits
  cases p.answer with
  | none => exact ⟨rfl, rfl⟩
  | some data =>
    dsimp only
    split
    · exact ⟨rfl, rfl⟩
    · rw [discoverItems_eq]
      exact foldl_visit _ _

variable (x c rfc3339) in
/-- So does a run of passes. -/
theorem discoverAll_eq (s : Db) (run : List DiscoveryPass) :
    (discoverAll x c rfc3339 s run).recent = (run.flatMap (·.visits)).foldl (recentAfter x c rfc3339) s.recent ∧
      (discoverAll x c rfc3339 s run).tokens =
        ((run.flatMap (·.visits)).map Visit.row).foldl (insertNew TokenRow.key) s.tokens := by
  induction run generalizing s with
  | nil => exact ⟨rfl, rfl⟩
  | cons p run ih =>
    obtain ⟨hrecent, htokens⟩ := ih (discoverTokensOnce x c rfc3339 p s).1
    obtain ⟨hrecent', htokens'⟩ := discoverTokensOnce_eq x c rfc3339 p s
    rw [List.flatMap_cons, List.foldl_append, List.map_append, List.foldl_append, ← hrecent', ← htokens']
    exact ⟨hrecent, htokens⟩

theorem discoverItems_ok {items : List Json} {i count n : Nat} {s : Db}
    (h : (discoverItems x c rfc3339 p items i s count).2 = .ok n) : n = count + (p.reached items i).length ∧
      ∀ j item, items[j]? = some item → mintOf item ≠ "" → p.visitAt (i + j) item ∈ p.reached items i := by
  induction items generalizing i s count with
  | nil => exact ⟨(Except.ok.inj h).symm, fun j item hitem => by simp at hitem⟩
  | cons first items ih =>
    unfold discoverItems at h
    unfold DiscoveryPass.reached
    by_cases hname : mintOf first = ""
    · rw [if_pos hname] at h
      obtain ⟨hn, hall⟩ := ih h
      refine ⟨by rw [if_pos hname, hn], fun j item hitem hmint => ?_⟩
      rw [if_pos hname]
      cases j with
      | zero => exact absurd (Option.some.inj hitem ▸ hname) hmint
      | succ j =>
        rw [show i + (j + 1) = i + 1 + j by omega]
        exact hall j item hitem hmint
    · rw [if_neg hname] at h
      by_cases hfail : (p.env i).insertFails = true
      · rw [if_pos hfail] at h
        cases h
      · rw [if_neg hfail] at h
        obtain ⟨hn, hall⟩ := ih h
        rw [if_neg hname, if_neg hfail]
        refine ⟨by rw [hn, List.length_cons]; omega, fun j item hitem hmint => ?_⟩
        cases j with
        | zero =>
          obtain rfl := Option.some.inj hitem
          exact List.mem_cons_self
        | succ j =>
          rw [show i + (j + 1) = i + 1 + j by omega]
          exact List.mem_cons_of_mem _ (hall j item hitem hmint)

/-- A pass that returns a count has visited the tokens of all the items that name one. -/
theorem discoverTokensOnce_ok {s : Db} {n : Nat} (h : (discoverTokensOnce x c rfc3339 p s).2 = .ok n) :
    n = p.visits.length ∧ ∃ data, p.answer = some data ∧
      ∀ j item, (itemsOf data)[j]? = some item → mintOf item ≠ "" → p.visitAt j item ∈ p.visits := by
  unfold discoverTokensOnce at h
  unfold DiscoveryPass.visits
  cases hanswer : p.answer with
  | none =>
    rw [hanswer] at h
    cases h
  | some data =>
    rw [hanswer] at h
    dsimp only at h ⊢
    split at h
    · cases h
    · rename_i hstore
      obtain ⟨hn, hall⟩ := discoverItems_ok p h
      rw [if_neg hstore]
      refine ⟨by rw [hn, Nat.zero_add], data, rfl, fun j item hitem hmint => ?_⟩
      rw [← Nat.zero_add j]
      exact hall j item hitem hmint

variable (c rfc3339)

/-- Over every run of passes discovery appends disclosures of unknown actors only and leaves the relations of every
token as they were; and it puts every token it visits into the table and discloses what it lacks. -/
theorem discovery_discloses (hsha : Function.Injective x.sha256Hex) {s : Db} (hkeyed : Keyed x s.recent)
    {run : List DiscoveryPass} (hfits : ∀ p ∈ run, ∀ v ∈ p.visits, Fits (utf8 v.token)) :
    (∃ added, (discoverAll x c rfc3339 s run).recent.rows = s.recent.rows ++ added ∧
      ∀ r ∈ added, ∃ p ∈ run, ∃ v ∈ p.visits, Discloses c v r.2) ∧
    (∀ ws token, fetchRelations (discoverAll x c rfc3339 s run).recent ws token =
      fetchRelations s.recent ws token) ∧
    ∀ p ∈ run, ∀ v ∈ p.visits, v.row.key ∈ (discoverAll x c rfc3339 s run).tokens.map TokenRow.key ∧
      (v.moment.readFails = false →
        disclosures (discoverAll x c rfc3339 s run).recent v.workspace.id v.token ≠ []) := by
  obtain ⟨hrecent, htokens⟩ := discoverAll_eq x c rfc3339 s run
  obtain ⟨added, hrows, hadded⟩ := visits_append x c rfc3339 (run.flatMap (·.visits)) s.recent
  rw [hrecent, htokens]
  refine ⟨⟨added, hrows, fun r hr => ?_⟩, fetchRelations_append hrows fun r hr => ?_, fun p hp v hv => ⟨?_, ?_⟩⟩
  · obtain ⟨v, hv, hr⟩ := hadded r hr
    obtain ⟨p, hp, hv⟩ := List.mem_flatMap.mp hv
    exact ⟨p, hp, v, hv, hr⟩
  · obtain ⟨v, -, hr⟩ := hadded r hr
    exact ⟨hr.relation, hr.retraction⟩
  · exact Helius.mem_foldl_insertNew _ (List.mem_map.mpr ⟨v, List.mem_flatMap.mpr ⟨p, hp, hv⟩, rfl⟩)
  · have hall : ∀ u ∈ run.flatMap (·.visits), Fits (utf8 u.token) := fun u hu => by
      obtain ⟨q, hq, hu⟩ := List.mem_flatMap.mp hu
      exact hfits q hq u hu
    exact visits_disclosed hsha _ hall hkeyed v (List.mem_flatMap.mpr ⟨p, hp, hv⟩)

end

/-- The store when the pool was answered, with one funding edge of its token, which is promoted. -/
def fundedMoment : Moment where
  funding := { Helius.emptyStore with
    edges := [⟨.solana, "funder", "wallet", "tx", "token_funding", "1", some 0, .splToken, "mint"⟩] }
  promoted := fun _ => true
  social := []
  insertFails := false
  readFails := false

/-- An answer with one pool. -/
def poolPass : DiscoveryPass where
  workspace := sampleWorkspace
  chain := .solana
  answer := some (.object [("pools", .array [.object [("mint", .string "mint")]])])
  observedAt := 0
  storeFails := false
  env := fun _ => fundedMoment

theorem discovery_discloses_pool :
    let db := discoverAll (tableCrates [] [] []) (⟨id, Function.injective_id⟩ : Collation String) (fun _ => "now")
      ⟨[], [], Table.empty⟩ [poolPass]
    fetchRelations db.recent 7 "solana:mint" = [] ∧ disclosures db.recent 7 "solana:mint" ≠ [] := by
  have hvisits : poolPass.visits = [⟨sampleWorkspace, .solana, "mint", 0, fundedMoment⟩] := rfl
  have hsha : Function.Injective (tableCrates [] [] []).sha256Hex :=
    tableCrates_injective List.nodup_nil fun d hd => nomatch hd
  have hfits : ∀ p ∈ [poolPass], ∀ v ∈ p.visits, Fits (utf8 v.token) := by
    intro p hp v hv
    obtain rfl := List.mem_singleton.mp hp
    rw [hvisits] at hv
    obtain rfl := List.mem_singleton.mp hv
    decide
  obtain ⟨-, hview, hall⟩ := discovery_discloses (⟨id, Function.injective_id⟩ : Collation String) (fun _ => "now")
    hsha (s := ⟨[], [], Table.empty⟩) (fun r hr => nomatch hr) hfits
  exact ⟨hview 7 "solana:mint", (hall poolPass (by simp) _ (hvisits ▸ List.mem_singleton_self _)).2 rfl⟩

end WhaleIntelligence.Discovery
