import WhaleIntelligence.Lib.FirstWins
import WhaleIntelligence.Recent.Identity

/- The relation resolver, `resolve_candidates`.

   Four paths read the edges of the graph in order and emit relations: the
   cross-chain deployments of the anchor, the tokens that share one of its
   actors, the wallets its deployer funded, and the tokens that reuse one of its
   social identities. Every path goes through one `emit` boundary, which replaces
   the raw key by its canonical identity and drops a key that has none. The
   emitted stream is deduplicated first-wins on (value, kind, relation) and then
   sorted.

   The stream is a function of the list of edges that is iterated, apart from the
   graph in which the funding path looks up its corroboration. What one edge
   alone gives is the stream of that edge (`edgeAlone`), and the stream of a list
   has the members of the streams of its edges (`mem_emissions`). -/
namespace WhaleIntelligence.Recent
open WhaleIntelligence FirstWins

/-- The dedupe key of a candidate: canonical value, kind and relation. -/
def CandidateRelation.key (c : CandidateRelation) : String × IdentityKind × RecentRelation :=
  (c.toIdentity.value, c.toIdentity.kind, c.relation)

theorem key_eq_iff {c d : CandidateRelation} :
    c.key = d.key ↔ c.toIdentity = d.toIdentity ∧ c.relation = d.relation := by
  obtain ⟨⟨k, v⟩, r, q, ev⟩ := c
  obtain ⟨⟨k', v'⟩, r', q', ev'⟩ := d
  simp only [CandidateRelation.key, Prod.mk.injEq, IdentityKey.mk.injEq]
  tauto

/-- The output order: confidence rank descending, then relation name, then value. -/
def candidateLe (a b : CandidateRelation) : Prop :=
  (compare b.confidence.rank a.confidence.rank).then
    ((compare a.relation.asStr b.relation.asStr).then
      (compare a.toIdentity.value b.toIdentity.value)) ≠ .gt

instance : DecidableRel candidateLe := fun _ _ => inferInstanceAs (Decidable (_ ≠ _))

section
variable (x : Crates) (anchor : ActorExtraction) (nodes : List EntityNode) (edges : List EntityEdge)
  (bindings : List SocialIdentityRecord) (now : Int)

/-- Whether an edge can support an exact relation: confirmed, with evidence, and
inside its window at `now`; a bound that does not parse fails closed. -/
def edgeIsAuthoritative (e : EntityEdge) : Bool :=
  if e.truthStatus ≠ .confirmed then false
  else if e.evidenceRefs.isEmpty then false
  else match parseSecs x e.validFrom with
    | none => false
    | some from_ =>
      if now < from_ then false
      else match e.validUntil with
        | some until_ =>
          match parseSecs x until_ with
          | some u => decide (now ≤ u)
          | none => false
        | none => true

/-- The one emit boundary: canonical identity or nothing. -/
def emit (kind : IdentityKind) (rawValue : String) (relation : RecentRelation)
    (confidence : RecentConfidence) (evidenceRefs : List String) : Option CandidateRelation :=
  (normalizeIdentity x kind rawValue).map fun identity => ⟨identity, relation, confidence, evidenceRefs⟩

/-! ## Cross-chain deployment -/

/-- An authoritative edge from the anchor to a token on a different chain. -/
def crossChainEmit (anchorChain : String) (e : EntityEdge) : Option CandidateRelation :=
  if e.edgeType ≠ .crossChainDeployment then none
  else if !sameToken x e.fromEntityKey anchor.token then none
  else
    let distinctChain := match canonicalChain e.toEntityKey with
      | some t => t ≠ anchorChain
      | none => false
    if !distinctChain || !edgeIsAuthoritative x now e then none
    else emit x .token e.toEntityKey .crossChainDeployment .exact e.evidenceRefs

/-! ## Actor reverse lookup -/

/-- The relation an edge with a matching actor stands for. -/
def actorRelation (e : EntityEdge) : Option RecentRelation :=
  match e.edgeType with
  | .deployedBy => if sameActor x anchor.deployer e.fromEntityKey then some .sameDeployer else none
  | .fundedBy => if sameActor x anchor.initialFunder e.fromEntityKey then some .sameFunder else none
  | .sameAuthority => if sameActor x anchor.authority e.fromEntityKey then some .sameAuthority else none
  | .sameFeePayer => if sameActor x anchor.feePayer e.fromEntityKey then some .sameFeePayer else none
  | _ => none

/-- One edge of the token `otherCanonical`: a factory is no actor. -/
def actorEmit (otherCanonical : String) (e : EntityEdge) : Option CandidateRelation :=
  if sameActor x anchor.factory e.fromEntityKey then none
  else match actorRelation x anchor e with
    | none => none
    | some relation =>
      let confidence := if edgeIsAuthoritative x now e then .exact else .insufficient
      emit x .token otherCanonical relation confidence e.evidenceRefs

/-- The edges of one token node, the anchor's own token excluded. -/
def nodeEmits (es : List EntityEdge) (node : EntityNode) : List CandidateRelation :=
  -- another spelling of the anchor is the anchor
  if sameToken x node.entityKey anchor.token then []
  else match normalizeIdentity x .token node.entityKey with
    | none => []
    | some other =>
      (es.filter fun e => sameToken x e.toEntityKey node.entityKey).filterMap
        (actorEmit x anchor now other.value)

/-! ## Funded wallets -/

/-- Whether `re` corroborates the funding edge `e` at `occ`: from the funded
wallet, authoritative, to an immutable social identity of the anchor, and valid
at the time of the funding. -/
def corroborates (occ : Int) (e re : EntityEdge) : Bool :=
  re.edgeType == .reusedSocialLink &&
    sameWallet x re.fromEntityKey e.toEntityKey &&
    edgeIsAuthoritative x now re &&
    (anchor.socialIdentities.any fun s =>
      sameSocialIdentity x re.toEntityKey s && isImmutableSocialIdentity s bindings) &&
    (match parseSecs x re.validFrom with
      | some vf => decide (vf ≤ occ)
      | none => false) &&
    -- unlike in the authority check, a bound that does not parse is no bound here
    (match re.validUntil.bind (parseSecs x) with
      | some vu => decide (occ ≤ vu)
      | none => true)

/-- The one edge of the graph that meets every condition of `corroborates`. -/
def corroboratingSocialEdge (e : EntityEdge) : Option EntityEdge :=
  (parseSecs x e.occurredAt).bind fun occ => edges.find? (corroborates x anchor bindings now occ e)

def fundingConfidence (e : EntityEdge) : RecentConfidence :=
  if edgeIsAuthoritative x now e ∧ (corroboratingSocialEdge x anchor edges bindings now e).isSome then
    .reconstructed
  else if edgeIsAuthoritative x now e then .estimated
  else .insufficient

/-- A wallet of the graph that the anchor's deployer funded. -/
def fundingEmit (e : EntityEdge) : Option CandidateRelation :=
  if e.edgeType ≠ .fundedBy then none
  else if !sameActor x anchor.deployer e.fromEntityKey then none
  else if !nodes.any fun n => sameWallet x n.entityKey e.toEntityKey && n.nodeType == .wallet then none
  else emit x .wallet e.toEntityKey .fundedByKnownDeployer
    (fundingConfidence x anchor edges bindings now e) e.evidenceRefs

/-! ## Social reuse -/

/-- A token of the graph that reuses the social identity `identity`. -/
def socialEmit (identity : String) (e : EntityEdge) : Option CandidateRelation :=
  if e.edgeType ≠ .reusedSocialLink then none
  else if !sameSocialIdentity x e.toEntityKey identity then none
  -- the token is not compared with the anchor
  else if !nodes.any fun n => sameToken x n.entityKey e.fromEntityKey && n.nodeType == .token then none
  else emit x .token e.fromEntityKey .reusedSocialLink .insufficient e.evidenceRefs

/-! ## The resolver -/

/-- The stream emitted while the edges `es` are iterated in the graph `edges`. -/
def emissions (anchorChain : String) (es : List EntityEdge) : List CandidateRelation :=
  es.filterMap (crossChainEmit x anchor now anchorChain) ++
    (nodes.filter (·.nodeType == .token)).flatMap (nodeEmits x anchor now es) ++
    es.filterMap (fundingEmit x anchor nodes edges bindings now) ++
    anchor.socialIdentities.flatMap fun identity => es.filterMap (socialEmit x nodes identity)

/-- The candidate relations of an anchor; an anchor without a known chain has none. -/
def resolveCandidates : List CandidateRelation :=
  match canonicalChain anchor.token with
  | none => []
  | some anchorChain =>
    -- the first of a key is kept, whatever its confidence; the ranking comes after
    (firstWins CandidateRelation.key
      (emissions x anchor nodes edges bindings now anchorChain edges)).insertionSort candidateLe

/-- What the edge `e` alone gives in the graph. -/
def edgeAlone (e : EntityEdge) : List CandidateRelation :=
  match canonicalChain anchor.token with
  | none => []
  | some anchorChain => emissions x anchor nodes edges bindings now anchorChain [e]

end

/-! ## What is emitted -/

section
variable {x : Crates} {anchor : ActorExtraction} {nodes : List EntityNode} {edges : List EntityEdge}
  {bindings : List SocialIdentityRecord} {now : Int}

theorem emit_eq_some {kind : IdentityKind} {raw : String} {relation : RecentRelation}
    {confidence : RecentConfidence} {evidence : List String} {c : CandidateRelation} :
    emit x kind raw relation confidence evidence = some c ↔
      ∃ k, normalizeIdentity x kind raw = some k ∧ c = ⟨k, relation, confidence, evidence⟩ := by
  simp only [emit, Option.map_eq_some_iff, eq_comm (b := c)]

theorem crossChainEmit_eq_some {anchorChain : String} {e : EntityEdge} {c : CandidateRelation} :
    crossChainEmit x anchor now anchorChain e = some c ↔
      e.edgeType = .crossChainDeployment ∧ sameToken x e.fromEntityKey anchor.token = true ∧
      (∃ t, canonicalChain e.toEntityKey = some t ∧ t ≠ anchorChain) ∧
      edgeIsAuthoritative x now e = true ∧
      ∃ k, normalizeIdentity x .token e.toEntityKey = some k ∧
        c = ⟨k, .crossChainDeployment, .exact, e.evidenceRefs⟩ := by
  unfold crossChainEmit
  by_cases ht : e.edgeType = .crossChainDeployment
  · cases hf : sameToken x e.fromEntityKey anchor.token
    · simp [ht]
    · cases hc : canonicalChain e.toEntityKey with
      | none => simp [ht]
      | some t =>
        by_cases hd : t = anchorChain
        · simp [ht, hd]
        · cases ha : edgeIsAuthoritative x now e <;> simp [ht, hd, emit_eq_some]
  · simp [ht]

/-- The conditions under which the edge `e` supports the actor relation `r`. -/
def ActorSupport (x : Crates) (anchor : ActorExtraction) (r : RecentRelation) (e : EntityEdge) : Prop :=
  (r = .sameDeployer ∧ e.edgeType = .deployedBy ∧ sameActor x anchor.deployer e.fromEntityKey = true) ∨
  (r = .sameFunder ∧ e.edgeType = .fundedBy ∧ sameActor x anchor.initialFunder e.fromEntityKey = true) ∨
  (r = .sameAuthority ∧ e.edgeType = .sameAuthority ∧ sameActor x anchor.authority e.fromEntityKey = true) ∨
  (r = .sameFeePayer ∧ e.edgeType = .sameFeePayer ∧ sameActor x anchor.feePayer e.fromEntityKey = true)

theorem actorRelation_eq_some {e : EntityEdge} {r : RecentRelation} :
    actorRelation x anchor e = some r ↔ ActorSupport x anchor r e := by
  unfold actorRelation ActorSupport
  cases e.edgeType <;> grind

/-- What an actor edge gives: exact when authoritative, else insufficient. -/
def actorConfidence (x : Crates) (now : Int) (e : EntityEdge) : RecentConfidence :=
  if edgeIsAuthoritative x now e then .exact else .insufficient

theorem mem_nodeEmits {es : List EntityEdge} {node : EntityNode} {c : CandidateRelation} :
    c ∈ nodeEmits x anchor now es node ↔
      sameToken x node.entityKey anchor.token = false ∧
      ∃ k, normalizeIdentity x .token node.entityKey = some k ∧
        ∃ e ∈ es, normalizeIdentity x .token e.toEntityKey = some k ∧
          sameActor x anchor.factory e.fromEntityKey = false ∧
          ∃ r, ActorSupport x anchor r e ∧ c = ⟨k, r, actorConfidence x now e, e.evidenceRefs⟩ := by
  unfold nodeEmits
  cases hs : sameToken x node.entityKey anchor.token
  · cases hn : normalizeIdentity x .token node.entityKey with
    | none => simp
    | some k =>
      have hjoin : ∀ e : EntityEdge, sameToken x e.toEntityKey node.entityKey = true ↔
          normalizeIdentity x .token e.toEntityKey = some k := by
        intro e
        rw [sameToken, sameKey_iff, hn]
        simp
      have hemit : ∀ e : EntityEdge, actorEmit x anchor now k.value e = some c ↔
          sameActor x anchor.factory e.fromEntityKey = false ∧
          ∃ r, ActorSupport x anchor r e ∧ c = ⟨k, r, actorConfidence x now e, e.evidenceRefs⟩ := by
        intro e
        unfold actorEmit
        cases hf : sameActor x anchor.factory e.fromEntityKey
        · cases hr : actorRelation x anchor e with
          | none =>
            have : ∀ r, ¬ ActorSupport x anchor r e := fun r h => by
              rw [← actorRelation_eq_some, hr] at h; cases h
            simp [this]
          | some r =>
            have : ∀ r', ActorSupport x anchor r' e ↔ r = r' := fun r' => by
              rw [← actorRelation_eq_some, hr, Option.some.injEq]
            simp [this, emit_eq_some, normalize_idem (Or.inl rfl) hn, actorConfidence]
        · simp
      simp [List.mem_filterMap, List.mem_filter, hjoin, hemit, and_assoc]
  · simp

theorem fundingEmit_eq_some {e : EntityEdge} {c : CandidateRelation} :
    fundingEmit x anchor nodes edges bindings now e = some c ↔
      e.edgeType = .fundedBy ∧ sameActor x anchor.deployer e.fromEntityKey = true ∧
      (∃ n ∈ nodes, sameWallet x n.entityKey e.toEntityKey = true ∧ n.nodeType = .wallet) ∧
      ∃ k, normalizeIdentity x .wallet e.toEntityKey = some k ∧
        c = ⟨k, .fundedByKnownDeployer, fundingConfidence x anchor edges bindings now e, e.evidenceRefs⟩ := by
  unfold fundingEmit
  by_cases ht : e.edgeType = .fundedBy
  · cases hd : sameActor x anchor.deployer e.fromEntityKey
    · simp [ht]
    · cases hw : nodes.any fun n => sameWallet x n.entityKey e.toEntityKey && n.nodeType == .wallet
      · simp only [List.any_eq_false] at hw
        simp_all
      · simp only [List.any_eq_true, Bool.and_eq_true, beq_iff_eq] at hw
        simp [ht, emit_eq_some, hw]
  · simp [ht]

theorem socialEmit_eq_some {identity : String} {e : EntityEdge} {c : CandidateRelation} :
    socialEmit x nodes identity e = some c ↔
      e.edgeType = .reusedSocialLink ∧ sameSocialIdentity x e.toEntityKey identity = true ∧
      (∃ n ∈ nodes, sameToken x n.entityKey e.fromEntityKey = true ∧ n.nodeType = .token) ∧
      ∃ k, normalizeIdentity x .token e.fromEntityKey = some k ∧
        c = ⟨k, .reusedSocialLink, .insufficient, e.evidenceRefs⟩ := by
  unfold socialEmit
  by_cases ht : e.edgeType = .reusedSocialLink
  · cases hd : sameSocialIdentity x e.toEntityKey identity
    · simp [ht]
    · cases hw : nodes.any fun n => sameToken x n.entityKey e.fromEntityKey && n.nodeType == .token
      · simp only [List.any_eq_false] at hw
        simp_all
      · simp only [List.any_eq_true, Bool.and_eq_true, beq_iff_eq] at hw
        simp [ht, emit_eq_some, hw]
  · simp [ht]

/-- A stream has the members of the streams of its edges. -/
theorem mem_emissions {anchorChain : String} {es : List EntityEdge} {c : CandidateRelation} :
    c ∈ emissions x anchor nodes edges bindings now anchorChain es ↔
      ∃ e ∈ es, c ∈ emissions x anchor nodes edges bindings now anchorChain [e] := by
  simp only [emissions, List.mem_append, List.mem_flatMap, List.mem_filterMap, List.mem_singleton,
    mem_nodeEmits]
  refine ⟨fun h => ?_, fun h => ?_⟩
  · rcases h with ((⟨e, he, h⟩ | ⟨n, hn, hs, k, hk, e, he, h⟩) | ⟨e, he, h⟩) | ⟨s, hs, e, he, h⟩
    · exact ⟨e, he, Or.inl (Or.inl (Or.inl ⟨e, rfl, h⟩))⟩
    · exact ⟨e, he, Or.inl (Or.inl (Or.inr ⟨n, hn, hs, k, hk, e, rfl, h⟩))⟩
    · exact ⟨e, he, Or.inl (Or.inr ⟨e, rfl, h⟩)⟩
    · exact ⟨e, he, Or.inr ⟨s, hs, e, rfl, h⟩⟩
  · obtain ⟨e, he, (((⟨_, rfl, h⟩ | ⟨n, hn, hs, k, hk, _, rfl, h⟩) | ⟨_, rfl, h⟩) | ⟨s, hs, _, rfl, h⟩)⟩ := h
    · exact Or.inl (Or.inl (Or.inl ⟨_, he, h⟩))
    · exact Or.inl (Or.inl (Or.inr ⟨n, hn, hs, k, hk, _, he, h⟩))
    · exact Or.inl (Or.inr ⟨_, he, h⟩)
    · exact Or.inr ⟨s, hs, _, he, h⟩

theorem resolveCandidates_eq {anchorChain : String} (h : canonicalChain anchor.token = some anchorChain) :
    resolveCandidates x anchor nodes edges bindings now =
      (firstWins CandidateRelation.key
        (emissions x anchor nodes edges bindings now anchorChain edges)).insertionSort candidateLe := by
  simp only [resolveCandidates, h]

theorem mem_resolveCandidates {c : CandidateRelation} :
    c ∈ resolveCandidates x anchor nodes edges bindings now ↔
      ∃ anchorChain, canonicalChain anchor.token = some anchorChain ∧
        c ∈ firstWins CandidateRelation.key
          (emissions x anchor nodes edges bindings now anchorChain edges) := by
  cases h : canonicalChain anchor.token with
  | none => simp [resolveCandidates, h]
  | some ch => rw [resolveCandidates_eq h, List.mem_insertionSort]; simp

/-- Every output was emitted by one edge of the list. -/
theorem exists_edgeAlone {c : CandidateRelation}
    (h : c ∈ resolveCandidates x anchor nodes edges bindings now) :
    ∃ e ∈ edges, c ∈ edgeAlone x anchor nodes edges bindings now e := by
  obtain ⟨ch, hch, hc⟩ := mem_resolveCandidates.mp h
  obtain ⟨e, he, hce⟩ := mem_emissions.mp (mem_of_mem_firstWins _ hc)
  exact ⟨e, he, by simpa only [edgeAlone, hch] using hce⟩

/-- Every key an edge of the list gives is in the output. -/
theorem exists_output {e : EntityEdge} {c : CandidateRelation} (he : e ∈ edges)
    (hc : c ∈ edgeAlone x anchor nodes edges bindings now e) :
    ∃ d ∈ resolveCandidates x anchor nodes edges bindings now, d.key = c.key := by
  cases hch : canonicalChain anchor.token with
  | none => simp [edgeAlone, hch] at hc
  | some ch =>
    simp only [edgeAlone, hch] at hc
    obtain ⟨d, hd, hk⟩ := exists_of_mem CandidateRelation.key (mem_emissions.mpr ⟨e, he, hc⟩)
    exact ⟨d, mem_resolveCandidates.mpr ⟨ch, hch, hd⟩, hk⟩

/-- One output for each key. -/
theorem output_unique {c d : CandidateRelation} (hc : c ∈ resolveCandidates x anchor nodes edges bindings now)
    (hd : d ∈ resolveCandidates x anchor nodes edges bindings now) (h : c.key = d.key) : c = d := by
  obtain ⟨ch, hch, hc⟩ := mem_resolveCandidates.mp hc
  obtain ⟨ch', hch', hd⟩ := mem_resolveCandidates.mp hd
  cases hch.symm.trans hch'
  exact eq_of_key_eq _ hc hd h

theorem output_keys_nodup :
    ((resolveCandidates x anchor nodes edges bindings now).map CandidateRelation.key).Nodup := by
  cases hch : canonicalChain anchor.token with
  | none => simp [resolveCandidates, hch]
  | some ch =>
    rw [resolveCandidates_eq hch]
    exact ((List.perm_insertionSort _ _).map _).nodup_iff.mpr (firstWins_keys_nodup _ _)

/-! ## What one edge gives -/

/-- The edge leads from the anchor to the token `k` on another chain. -/
structure CrossChainEdge (x : Crates) (anchor : ActorExtraction) (now : Int) (anchorChain : String)
    (k : IdentityKey) (e : EntityEdge) : Prop where
  edgeType : e.edgeType = .crossChainDeployment
  source : sameToken x e.fromEntityKey anchor.token = true
  otherChain : ∃ t, canonicalChain e.toEntityKey = some t ∧ t ≠ anchorChain
  authoritative : edgeIsAuthoritative x now e = true
  target : normalizeIdentity x .token e.toEntityKey = some k

/-- The edge supports the actor relation `r` for the token `k` of the graph. -/
structure ActorEdge (x : Crates) (anchor : ActorExtraction) (nodes : List EntityNode) (r : RecentRelation)
    (k : IdentityKey) (e : EntityEdge) : Prop where
  support : ActorSupport x anchor r e
  notFactory : sameActor x anchor.factory e.fromEntityKey = false
  target : normalizeIdentity x .token e.toEntityKey = some k
  node : ∃ n ∈ nodes, n.nodeType = .token ∧ sameToken x n.entityKey anchor.token = false ∧
    normalizeIdentity x .token n.entityKey = some k

/-- The edge funds the wallet `k` of the graph from the anchor's deployer. -/
structure FundingEdge (x : Crates) (anchor : ActorExtraction) (nodes : List EntityNode) (k : IdentityKey)
    (e : EntityEdge) : Prop where
  edgeType : e.edgeType = .fundedBy
  source : sameActor x anchor.deployer e.fromEntityKey = true
  target : normalizeIdentity x .wallet e.toEntityKey = some k
  node : ∃ n ∈ nodes, sameWallet x n.entityKey e.toEntityKey = true ∧ n.nodeType = .wallet

/-- The edge links the token `k` of the graph to a social identity of the anchor. -/
structure SocialEdge (x : Crates) (anchor : ActorExtraction) (nodes : List EntityNode) (k : IdentityKey)
    (e : EntityEdge) : Prop where
  edgeType : e.edgeType = .reusedSocialLink
  target : ∃ s ∈ anchor.socialIdentities, sameSocialIdentity x e.toEntityKey s = true
  source : normalizeIdentity x .token e.fromEntityKey = some k
  node : ∃ n ∈ nodes, sameToken x n.entityKey e.fromEntityKey = true ∧ n.nodeType = .token

/-- The four ways in which the edge `e` gives a candidate. -/
inductive Emitted (x : Crates) (anchor : ActorExtraction) (nodes : List EntityNode) (edges : List EntityEdge)
    (bindings : List SocialIdentityRecord) (now : Int) (anchorChain : String) (e : EntityEdge) :
    CandidateRelation → Prop
  | crossChain (k : IdentityKey) : CrossChainEdge x anchor now anchorChain k e →
    Emitted x anchor nodes edges bindings now anchorChain e ⟨k, .crossChainDeployment, .exact, e.evidenceRefs⟩
  | actor (k : IdentityKey) (r : RecentRelation) : ActorEdge x anchor nodes r k e →
    Emitted x anchor nodes edges bindings now anchorChain e ⟨k, r, actorConfidence x now e, e.evidenceRefs⟩
  | funding (k : IdentityKey) : FundingEdge x anchor nodes k e →
    Emitted x anchor nodes edges bindings now anchorChain e
      ⟨k, .fundedByKnownDeployer, fundingConfidence x anchor edges bindings now e, e.evidenceRefs⟩
  | social (k : IdentityKey) : SocialEdge x anchor nodes k e →
    Emitted x anchor nodes edges bindings now anchorChain e ⟨k, .reusedSocialLink, .insufficient, e.evidenceRefs⟩

theorem emissions_singleton {anchorChain : String} {e : EntityEdge} {c : CandidateRelation} :
    c ∈ emissions x anchor nodes edges bindings now anchorChain [e] ↔
      Emitted x anchor nodes edges bindings now anchorChain e c := by
  simp only [emissions, List.mem_append, List.mem_flatMap, List.mem_filterMap, List.mem_singleton,
    exists_eq_left, mem_nodeEmits, List.mem_filter, beq_iff_eq]
  refine ⟨fun h => ?_, fun h => ?_⟩
  · rcases h with ((h | ⟨n, ⟨hn, hnt⟩, hself, k, hk, ht, hf, r, hr, rfl⟩) | h) | ⟨s, hs, h⟩
    · obtain ⟨ht, hs, hc, ha, k, hk, rfl⟩ := crossChainEmit_eq_some.mp h
      exact .crossChain k ⟨ht, hs, hc, ha, hk⟩
    · exact .actor k r ⟨hr, hf, ht, n, hn, hnt, hself, hk⟩
    · obtain ⟨ht, hs, hn, k, hk, rfl⟩ := fundingEmit_eq_some.mp h
      exact .funding k ⟨ht, hs, hk, hn⟩
    · obtain ⟨ht, hs', hn, k, hk, rfl⟩ := socialEmit_eq_some.mp h
      exact .social k ⟨ht, ⟨s, hs, hs'⟩, hk, hn⟩
  · cases h with
    | crossChain k h =>
      exact Or.inl (Or.inl (Or.inl (crossChainEmit_eq_some.mpr
        ⟨h.edgeType, h.source, h.otherChain, h.authoritative, k, h.target, rfl⟩)))
    | actor k r h =>
      obtain ⟨n, hn, hnt, hself, hk⟩ := h.node
      exact Or.inl (Or.inl (Or.inr ⟨n, ⟨hn, hnt⟩, hself, k, hk, h.target, h.notFactory, r, h.support, rfl⟩))
    | funding k h =>
      exact Or.inl (Or.inr (fundingEmit_eq_some.mpr ⟨h.edgeType, h.source, h.node, k, h.target, rfl⟩))
    | social k h =>
      obtain ⟨s, hs, hs'⟩ := h.target
      exact Or.inr ⟨s, hs, socialEmit_eq_some.mpr ⟨h.edgeType, hs', h.node, k, h.source, rfl⟩⟩

theorem mem_edgeAlone {e : EntityEdge} {c : CandidateRelation} :
    c ∈ edgeAlone x anchor nodes edges bindings now e ↔
      ∃ anchorChain, canonicalChain anchor.token = some anchorChain ∧
        Emitted x anchor nodes edges bindings now anchorChain e c := by
  cases hch : canonicalChain anchor.token with
  | none => simp [edgeAlone, hch]
  | some ch => simp [edgeAlone, hch, emissions_singleton]

/-- Every output has an edge of the list that gives it. -/
theorem exists_emitted {c : CandidateRelation}
    (h : c ∈ resolveCandidates x anchor nodes edges bindings now) :
    ∃ anchorChain, canonicalChain anchor.token = some anchorChain ∧
      ∃ e ∈ edges, Emitted x anchor nodes edges bindings now anchorChain e c := by
  obtain ⟨e, he, hc⟩ := exists_edgeAlone h
  obtain ⟨ch, hch, hem⟩ := mem_edgeAlone.mp hc
  exact ⟨ch, hch, e, he, hem⟩

end

end WhaleIntelligence.Recent
