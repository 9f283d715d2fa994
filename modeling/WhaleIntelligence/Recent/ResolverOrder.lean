import Mathlib.Order.Bounds.Defs
import WhaleIntelligence.Recent.Resolver

/- The order of the edges and the confidence of the output.

   The four paths share one first-wins set, so of several edges for one target
   and relation the first one fixes the confidence, before anything is ranked.
   `resolveCandidates_order` says exactly when that does not show: the output
   facts do not depend on the order, and every confidence is the best one its
   edges support, if and only if the edges for one target and relation are
   equally strong (`UniformSupport`). Moving an edge to the front makes it the
   first of its key (`exists_output_first`), which gives the direction from the
   order to the edges. -/
namespace WhaleIntelligence.Recent
open WhaleIntelligence FirstWins

/-- What the order of the edges may not change: target, relation, confidence. -/
def CandidateRelation.fact (c : CandidateRelation) :
    (String × IdentityKind × RecentRelation) × RecentConfidence := (c.key, c.confidence)

section
variable (x : Crates) (anchor : ActorExtraction) (nodes : List EntityNode) (edges : List EntityEdge)
  (bindings : List SocialIdentityRecord) (now : Int)

/-- The ranks that the edges of the graph, each alone, give to a target and relation. -/
def supportRanks (key : String × IdentityKind × RecentRelation) : Set Nat :=
  {n | ∃ e ∈ edges, ∃ d ∈ edgeAlone x anchor nodes edges bindings now e, d.key = key ∧ d.confidence.rank = n}

/-- Under every order of nodes and edges the facts are the same, and every
confidence is the best one that some edge gives. -/
def OrderIndependentBest : Prop :=
  ∀ nodes' edges', nodes'.Perm nodes → edges'.Perm edges →
    (∀ f, f ∈ (resolveCandidates x anchor nodes' edges' bindings now).map CandidateRelation.fact ↔
      f ∈ (resolveCandidates x anchor nodes edges bindings now).map CandidateRelation.fact) ∧
    ∀ c ∈ resolveCandidates x anchor nodes' edges' bindings now,
      IsGreatest (supportRanks x anchor nodes edges bindings now c.key) c.confidence.rank

/-- An edge of the graph corroborates the funding edge `e`. -/
def Corroborated (e : EntityEdge) : Prop :=
  ∃ occ, parseSecs x e.occurredAt = some occ ∧ ∃ re ∈ edges, corroborates x anchor bindings now occ e re = true

/-- Two edges for one target and one relation are equally strong: both
authoritative or neither, and two authoritative fundings are both corroborated
or neither. -/
structure UniformSupport : Prop where
  actor : ∀ (r : RecentRelation) (k : IdentityKey), ∀ e ∈ edges, ∀ e' ∈ edges,
    ActorEdge x anchor nodes r k e → ActorEdge x anchor nodes r k e' →
    edgeIsAuthoritative x now e = edgeIsAuthoritative x now e'
  funding : ∀ k : IdentityKey, ∀ e ∈ edges, ∀ e' ∈ edges,
    FundingEdge x anchor nodes k e → FundingEdge x anchor nodes k e' →
    edgeIsAuthoritative x now e = edgeIsAuthoritative x now e' ∧
    (edgeIsAuthoritative x now e = true →
      (Corroborated x anchor edges bindings now e ↔ Corroborated x anchor edges bindings now e'))

end

section
variable {x : Crates} {anchor : ActorExtraction} {nodes nodes' : List EntityNode}
  {edges edges' : List EntityEdge} {bindings : List SocialIdentityRecord} {now : Int}

/-! ## Confidence of one edge -/

theorem corroboratingSocialEdge_isSome {e : EntityEdge} :
    (corroboratingSocialEdge x anchor edges bindings now e).isSome = true ↔
      Corroborated x anchor edges bindings now e := by
  unfold corroboratingSocialEdge Corroborated
  cases parseSecs x e.occurredAt <;> simp

theorem actorConfidence_eq_iff {e e' : EntityEdge} :
    actorConfidence x now e = actorConfidence x now e' ↔
      edgeIsAuthoritative x now e = edgeIsAuthoritative x now e' := by
  unfold actorConfidence
  cases edgeIsAuthoritative x now e <;> cases edgeIsAuthoritative x now e' <;> simp

theorem fundingConfidence_eq_iff {e e' : EntityEdge} :
    fundingConfidence x anchor edges bindings now e = fundingConfidence x anchor edges bindings now e' ↔
      edgeIsAuthoritative x now e = edgeIsAuthoritative x now e' ∧
      (edgeIsAuthoritative x now e = true →
        (Corroborated x anchor edges bindings now e ↔ Corroborated x anchor edges bindings now e')) := by
  rw [← corroboratingSocialEdge_isSome, ← corroboratingSocialEdge_isSome]
  unfold fundingConfidence
  cases edgeIsAuthoritative x now e <;> cases edgeIsAuthoritative x now e' <;>
    cases (corroboratingSocialEdge x anchor edges bindings now e).isSome <;>
    cases (corroboratingSocialEdge x anchor edges bindings now e').isSome <;> simp

theorem actorSupport_relation {r : RecentRelation} {e : EntityEdge} (h : ActorSupport x anchor r e) :
    r ≠ .crossChainDeployment ∧ r ≠ .fundedByKnownDeployer ∧ r ≠ .reusedSocialLink := by
  rcases h with ⟨rfl, -⟩ | ⟨rfl, -⟩ | ⟨rfl, -⟩ | ⟨rfl, -⟩ <;> decide

section
variable {anchorChain : String} {e : EntityEdge} {d : CandidateRelation}

theorem emitted_crossChain (h : Emitted x anchor nodes edges bindings now anchorChain e d)
    (hr : d.relation = .crossChainDeployment) : d.confidence = .exact := by
  cases h with
  | crossChain => rfl
  | actor k r h => exact absurd hr (actorSupport_relation h.support).1
  | funding => cases hr
  | social => cases hr

theorem emitted_social (h : Emitted x anchor nodes edges bindings now anchorChain e d)
    (hr : d.relation = .reusedSocialLink) : d.confidence = .insufficient := by
  cases h with
  | crossChain => cases hr
  | actor k r h => exact absurd hr (actorSupport_relation h.support).2.2
  | funding => cases hr
  | social => rfl

theorem emitted_funding (h : Emitted x anchor nodes edges bindings now anchorChain e d)
    (hr : d.relation = .fundedByKnownDeployer) :
    FundingEdge x anchor nodes d.toIdentity e ∧
      d.confidence = fundingConfidence x anchor edges bindings now e := by
  cases h with
  | crossChain => cases hr
  | actor k r h => exact absurd hr (actorSupport_relation h.support).2.1
  | funding k h => exact ⟨h, rfl⟩
  | social => cases hr

theorem emitted_actor (h : Emitted x anchor nodes edges bindings now anchorChain e d)
    (hr : d.relation ≠ .crossChainDeployment ∧ d.relation ≠ .fundedByKnownDeployer ∧
      d.relation ≠ .reusedSocialLink) :
    ActorEdge x anchor nodes d.relation d.toIdentity e ∧ d.confidence = actorConfidence x now e := by
  cases h with
  | crossChain => exact absurd rfl hr.1
  | actor k r h => exact ⟨h, rfl⟩
  | funding => exact absurd rfl hr.2.1
  | social => exact absurd rfl hr.2.2

end

/-- Uniform support is agreement of the confidences that edges of one key give. -/
theorem uniformSupport_iff (anchorChain : String) :
    UniformSupport x anchor nodes edges bindings now ↔
      ∀ e ∈ edges, ∀ e' ∈ edges, ∀ c c', Emitted x anchor nodes edges bindings now anchorChain e c →
        Emitted x anchor nodes edges bindings now anchorChain e' c' → c.key = c'.key →
        c.confidence = c'.confidence := by
  constructor
  · intro h e he e' he' c c' hc hc' hk
    obtain ⟨hid, hrel⟩ := key_eq_iff.mp hk
    cases hc with
    | crossChain k hc => exact (emitted_crossChain hc' hrel.symm).symm
    | actor k r hc =>
      have hr := actorSupport_relation hc.support
      obtain ⟨hc', hconf⟩ := emitted_actor hc' (hrel ▸ hr)
      rw [hconf]
      refine actorConfidence_eq_iff.mpr (h.actor r k e he e' he' hc ?_)
      rw [show r = c'.relation from hrel, show k = c'.toIdentity from hid]
      exact hc'
    | funding k hc =>
      obtain ⟨hc', hconf⟩ := emitted_funding hc' hrel.symm
      rw [hconf]
      refine fundingConfidence_eq_iff.mpr (h.funding k e he e' he' hc ?_)
      rw [show k = c'.toIdentity from hid]
      exact hc'
    | social k hc => exact (emitted_social hc' hrel.symm).symm
  · intro h
    refine ⟨?_, ?_⟩
    · intro r k e he e' he' ha ha'
      exact actorConfidence_eq_iff.mp (h e he e' he' _ _ (.actor k r ha) (.actor k r ha') rfl)
    · intro k e he e' he' hf hf'
      exact fundingConfidence_eq_iff.mp (h e he e' he' _ _ (.funding k hf) (.funding k hf') rfl)

/-! ## Order -/

theorem corroborated_perm (he : edges'.Perm edges) {e : EntityEdge} :
    Corroborated x anchor edges' bindings now e ↔ Corroborated x anchor edges bindings now e := by
  simp only [Corroborated, he.mem_iff]

theorem fundingConfidence_perm (he : edges'.Perm edges) (e : EntityEdge) :
    fundingConfidence x anchor edges' bindings now e = fundingConfidence x anchor edges bindings now e := by
  have hsome : (corroboratingSocialEdge x anchor edges' bindings now e).isSome =
      (corroboratingSocialEdge x anchor edges bindings now e).isSome := by
    rw [Bool.eq_iff_iff, corroboratingSocialEdge_isSome, corroboratingSocialEdge_isSome, corroborated_perm he]
  simp only [fundingConfidence, hsome]

/-- What one edge gives does not depend on the order of the graph. -/
theorem emitted_perm (hn : nodes'.Perm nodes) (he : edges'.Perm edges) {anchorChain : String}
    {e : EntityEdge} {c : CandidateRelation} (h : Emitted x anchor nodes' edges' bindings now anchorChain e c) :
    Emitted x anchor nodes edges bindings now anchorChain e c := by
  cases h with
  | crossChain k h => exact .crossChain k h
  | actor k r h =>
    obtain ⟨n, hmem, hrest⟩ := h.node
    exact .actor k r ⟨h.support, h.notFactory, h.target, n, hn.mem_iff.mp hmem, hrest⟩
  | funding k h =>
    obtain ⟨n, hmem, hrest⟩ := h.node
    rw [fundingConfidence_perm he]
    exact .funding k ⟨h.edgeType, h.source, h.target, n, hn.mem_iff.mp hmem, hrest⟩
  | social k h =>
    obtain ⟨n, hmem, hrest⟩ := h.node
    exact .social k ⟨h.edgeType, h.target, h.source, n, hn.mem_iff.mp hmem, hrest⟩

/-- Under uniform support the facts of the output are those the edges give. -/
theorem output_facts {anchorChain : String} (hch : canonicalChain anchor.token = some anchorChain)
    (h : UniformSupport x anchor nodes edges bindings now)
    {f : (String × IdentityKind × RecentRelation) × RecentConfidence} :
    f ∈ (resolveCandidates x anchor nodes edges bindings now).map CandidateRelation.fact ↔
      ∃ e ∈ edges, ∃ c, Emitted x anchor nodes edges bindings now anchorChain e c ∧ c.fact = f := by
  have hagree := (uniformSupport_iff anchorChain).mp h
  have hmem : ∀ c, c ∈ emissions x anchor nodes edges bindings now anchorChain edges ↔
      ∃ e ∈ edges, Emitted x anchor nodes edges bindings now anchorChain e c := by
    intro c
    rw [mem_emissions]
    simp only [emissions_singleton]
  have hkept := mem_map_firstWins CandidateRelation.key CandidateRelation.confidence
    (l := emissions x anchor nodes edges bindings now anchorChain edges) (p := f)
    (fun a ha b hb hk => by
      obtain ⟨e, he, hea⟩ := (hmem a).mp ha
      obtain ⟨e', he', heb⟩ := (hmem b).mp hb
      exact hagree e he e' he' a b hea heb hk)
  rw [resolveCandidates_eq hch, List.mem_map]
  simp only [List.mem_insertionSort]
  rw [← List.mem_map]
  refine hkept.trans ?_
  simp only [List.mem_map, hmem]
  refine ⟨fun h => ?_, fun h => ?_⟩
  · obtain ⟨c, ⟨e, he, hc⟩, rfl⟩ := h
    exact ⟨e, he, c, hc, rfl⟩
  · obtain ⟨e, he, c, hc, rfl⟩ := h
    exact ⟨c, ⟨e, he, hc⟩, rfl⟩

theorem uniformSupport_perm (hn : nodes'.Perm nodes) (he : edges'.Perm edges)
    (h : UniformSupport x anchor nodes edges bindings now) :
    UniformSupport x anchor nodes' edges' bindings now := by
  rw [uniformSupport_iff ""] at h ⊢
  intro e hmem e' hmem' c c' hc hc'
  exact h e (he.mem_iff.mp hmem) e' (he.mem_iff.mp hmem') c c' (emitted_perm hn he hc) (emitted_perm hn he hc')

/-- An actor edge at the front of the list is the first of its key. -/
theorem nodeEmits_first {r : RecentRelation} {k : IdentityKey} {e : EntityEdge} (es : List EntityEdge)
    (h : ActorEdge x anchor nodes r k e) {n : EntityNode} {d : CandidateRelation}
    (hd : (nodeEmits x anchor now (e :: es) n).find? (fun b => b.key = (k.value, k.kind, r)) = some d) :
    d.confidence = actorConfidence x now e := by
  have hdk : d.key = (k.value, k.kind, r) := by simpa using List.find?_some hd
  obtain ⟨hself, k', hk', e', -, -, -, r', -, rfl⟩ := mem_nodeEmits.mp (List.mem_of_find?_eq_some hd)
  have hkk : k' = k := (key_eq_iff (d := ⟨k, r, .exact, []⟩).mp hdk).1
  subst hkk
  -- the node has the token of the key, so the edge heads the list of the node
  have hjoin : sameToken x e.toEntityKey n.entityKey = true := sameKey_iff.mpr ⟨_, h.target, hk'⟩
  have hemit : actorEmit x anchor now k'.value e =
      some ⟨k', r, actorConfidence x now e, e.evidenceRefs⟩ := by
    simp only [actorEmit, h.notFactory, actorRelation_eq_some.mpr h.support, Bool.false_eq_true, if_false]
    exact emit_eq_some.mpr ⟨_, normalize_idem (Or.inl rfl) hk', rfl⟩
  simp only [nodeEmits, hself, hk', List.filter_cons, hjoin, List.filterMap_cons, hemit, if_true,
    Bool.false_eq_true, if_false, List.find?_cons, CandidateRelation.key, decide_true] at hd
  exact congrArg CandidateRelation.confidence (Option.some.inj hd).symm

theorem find?_append_left {α : Type} {p : α → Bool} {a : α} {l : List α} (m : List α) (ha : a ∈ l)
    (hp : p a = true) : (l ++ m).find? p = l.find? p := by
  have hs : (l.find? p).isSome = true := List.find?_isSome.mpr ⟨a, ha, hp⟩
  rw [List.find?_append]
  exact Option.or_of_isSome hs

theorem find?_append_right {α : Type} {p : α → Bool} {l : List α} (m : List α)
    (h : ∀ a ∈ l, p a = false) : (l ++ m).find? p = m.find? p := by
  have hn : l.find? p = none := List.find?_eq_none.mpr fun a ha => by rw [h a ha]; decide
  rw [List.find?_append, hn, Option.none_or]

/-- An edge at the front of the list fixes the confidence of what it gives. -/
theorem exists_output_first {anchorChain : String} (hch : canonicalChain anchor.token = some anchorChain)
    {e : EntityEdge} {es : List EntityEdge} {c : CandidateRelation}
    (hc : Emitted x anchor nodes (e :: es) bindings now anchorChain e c) :
    ∃ d ∈ resolveCandidates x anchor nodes (e :: es) bindings now,
      d.key = c.key ∧ d.confidence = c.confidence := by
  have halone : c ∈ edgeAlone x anchor nodes (e :: es) bindings now e := mem_edgeAlone.mpr ⟨_, hch, hc⟩
  obtain ⟨d, hd, hk⟩ := exists_output List.mem_cons_self halone
  refine ⟨d, hd, hk, ?_⟩
  have hrel : d.relation = c.relation := (key_eq_iff.mp hk).2
  obtain ⟨_, _, e', -, hd'⟩ := exists_emitted hd
  rw [resolveCandidates_eq hch, List.mem_insertionSort, mem_firstWins, hk] at hd
  -- the stream of a path without the relation holds nothing of the key
  have hcross : c.relation ≠ .crossChainDeployment →
      ∀ a ∈ (e :: es).filterMap (crossChainEmit x anchor now anchorChain), decide (a.key = c.key) = false := by
    intro hr a ha
    obtain ⟨f, -, hf⟩ := List.mem_filterMap.mp ha
    obtain ⟨-, -, -, -, k, -, rfl⟩ := crossChainEmit_eq_some.mp hf
    exact decide_eq_false fun h => hr (key_eq_iff.mp h).2.symm
  cases hc with
  | crossChain k hc => exact emitted_crossChain hd' hrel
  | social k hc => exact emitted_social hd' hrel
  | actor k r hc =>
    obtain ⟨n, hn, hnt, hself, hnk⟩ := hc.node
    have hmem : (⟨k, r, actorConfidence x now e, e.evidenceRefs⟩ : CandidateRelation) ∈
        (nodes.filter (·.nodeType == .token)).flatMap (nodeEmits x anchor now (e :: es)) := by
      refine List.mem_flatMap.mpr ⟨n, List.mem_filter.mpr ⟨hn, by simp [hnt]⟩, ?_⟩
      exact mem_nodeEmits.mpr ⟨hself, k, hnk, e, List.mem_cons_self, hc.target, hc.notFactory, r, hc.support, rfl⟩
    rw [emissions, List.append_assoc, List.append_assoc,
      find?_append_right _ (hcross (actorSupport_relation hc.support).1),
      find?_append_left _ hmem (by simp), List.find?_flatMap] at hd
    obtain ⟨m, -, hm⟩ := List.exists_of_findSome?_eq_some hd
    exact nodeEmits_first es hc hm
  | funding k hc =>
    have hactor : ∀ a ∈ (nodes.filter (·.nodeType == .token)).flatMap (nodeEmits x anchor now (e :: es)),
        decide (a.key = CandidateRelation.key ⟨k, .fundedByKnownDeployer,
          fundingConfidence x anchor (e :: es) bindings now e, e.evidenceRefs⟩) = false := by
      intro a ha
      obtain ⟨m, -, hm⟩ := List.mem_flatMap.mp ha
      obtain ⟨-, k', -, f, -, -, -, r, hr, rfl⟩ := mem_nodeEmits.mp hm
      exact decide_eq_false fun h => (actorSupport_relation hr).2.1 (key_eq_iff.mp h).2
    have hhead : fundingEmit x anchor nodes (e :: es) bindings now e = some ⟨k, .fundedByKnownDeployer,
        fundingConfidence x anchor (e :: es) bindings now e, e.evidenceRefs⟩ :=
      fundingEmit_eq_some.mpr ⟨hc.edgeType, hc.source, hc.node, k, hc.target, rfl⟩
    rw [emissions, List.append_assoc, List.append_assoc, find?_append_right _ (hcross (by simp)),
      find?_append_right _ hactor, List.filterMap_cons, hhead] at hd
    simp only [List.cons_append, List.find?_cons, decide_true, Option.some.injEq] at hd
    rw [← hd]

/-! ## The order law -/

theorem output_fact_first (h : ∀ nodes' edges', nodes'.Perm nodes → edges'.Perm edges →
      ∀ f, f ∈ (resolveCandidates x anchor nodes' edges' bindings now).map CandidateRelation.fact ↔
        f ∈ (resolveCandidates x anchor nodes edges bindings now).map CandidateRelation.fact)
    {anchorChain : String} (hch : canonicalChain anchor.token = some anchorChain) {e : EntityEdge}
    (he : e ∈ edges) {c : CandidateRelation} (hc : Emitted x anchor nodes edges bindings now anchorChain e c) :
    ∃ d ∈ resolveCandidates x anchor nodes edges bindings now,
      d.key = c.key ∧ d.confidence = c.confidence := by
  have hp : (e :: edges.erase e).Perm edges := (List.perm_cons_erase he).symm
  obtain ⟨d, hd, hk, hq⟩ := exists_output_first hch (emitted_perm (List.Perm.refl nodes) hp.symm hc)
  have hfact := (h nodes _ (List.Perm.refl nodes) hp d.fact).mp (List.mem_map_of_mem hd)
  obtain ⟨d', hd', hf⟩ := List.mem_map.mp hfact
  obtain ⟨hk', hq'⟩ := Prod.mk.injEq _ _ _ _ ▸ hf
  exact ⟨d', hd', hk'.trans hk, hq'.trans hq⟩

/-- The order of nodes and edges does not show, and every confidence is the best
its edges give, exactly under uniform support. -/
theorem resolveCandidates_order :
    OrderIndependentBest x anchor nodes edges bindings now ↔
      (canonicalChain anchor.token ≠ none → UniformSupport x anchor nodes edges bindings now) := by
  cases hch : canonicalChain anchor.token with
  | none => simp [OrderIndependentBest, resolveCandidates, hch]
  | some ch =>
    simp only [ne_eq, reduceCtorEq, not_false_eq_true, forall_const]
    constructor
    · intro h
      apply (uniformSupport_iff ch).mpr
      intro e he e' he' c c' hc hc' hk
      have hfacts := fun nodes' edges' hn he => (h nodes' edges' hn he).1
      obtain ⟨d, hd, hdk, hdq⟩ := output_fact_first hfacts hch he hc
      obtain ⟨d', hd', hdk', hdq'⟩ := output_fact_first hfacts hch he' hc'
      have heq : d = d' := output_unique hd hd' (hdk.trans (hk.trans hdk'.symm))
      rw [← hdq, ← hdq', heq]
    · intro h nodes' edges' hn he
      have hfacts : ∀ f, f ∈ (resolveCandidates x anchor nodes' edges' bindings now).map CandidateRelation.fact ↔
          f ∈ (resolveCandidates x anchor nodes edges bindings now).map CandidateRelation.fact := by
        intro f
        rw [output_facts hch h, output_facts hch (uniformSupport_perm hn he h)]
        refine ⟨fun h => ?_, fun h => ?_⟩
        · obtain ⟨e, hmem, c, hc, rfl⟩ := h
          exact ⟨e, he.mem_iff.mp hmem, c, emitted_perm hn he hc, rfl⟩
        · obtain ⟨e, hmem, c, hc, rfl⟩ := h
          exact ⟨e, he.mem_iff.mpr hmem, c, emitted_perm hn.symm he.symm hc, rfl⟩
      refine ⟨hfacts, ?_⟩
      intro c hc
      obtain ⟨e, hmem, d, hd, hf⟩ := (output_facts hch h).mp ((hfacts c.fact).mp (List.mem_map_of_mem hc))
      obtain ⟨hk, hq⟩ := Prod.mk.injEq _ _ _ _ ▸ hf
      refine ⟨⟨e, hmem, d, mem_edgeAlone.mpr ⟨ch, hch, hd⟩, hk, by rw [hq]⟩, ?_⟩
      intro n hn'
      obtain ⟨e', hmem', d', hd', hk', rfl⟩ := hn'
      obtain ⟨ch', hch', hd'⟩ := mem_edgeAlone.mp hd'
      cases hch.symm.trans hch'
      have hagree := (uniformSupport_iff _).mp h e' hmem' e hmem d' d hd' hd (hk'.trans hk.symm)
      rw [hagree, hq]

end

/-- Two `DeployedBy` edges for one pair, the unconfirmed one first: the output
stays at `insufficient`, and the confirmed edge alone gives `exact`. -/
theorem resolveCandidates_order_fails :
    ¬ OrderIndependentBest (tableCrates [("1970-01-01T00:00:00Z", 0)] [] [])
      ⟨"solana:AAA", some "solana:D", none, none, none, none, []⟩ [⟨"solana:BBB", .token⟩]
      [⟨"solana:D", "solana:BBB", .deployedBy, "1970-01-01T00:00:00Z", .unknown, "1970-01-01T00:00:00Z", none,
          ["feed"]⟩,
        ⟨"solana:D", "solana:BBB", .deployedBy, "1970-01-01T00:00:00Z", .confirmed, "1970-01-01T00:00:00Z", none,
          ["tx"]⟩] [] 5 := by
  intro h
  obtain ⟨-, hbest⟩ := h _ _ (.refl _) (.refl _)
  have hc := (hbest ⟨⟨.token, "solana:BBB"⟩, .sameDeployer, .insufficient, ["feed"]⟩ (by decide)).2
  have hd := hc ⟨⟨"solana:D", "solana:BBB", .deployedBy, "1970-01-01T00:00:00Z", .confirmed,
    "1970-01-01T00:00:00Z", none, ["tx"]⟩, by decide,
    ⟨⟨.token, "solana:BBB"⟩, .sameDeployer, .exact, ["tx"]⟩, by decide, rfl, rfl⟩
  exact absurd hd (by decide)

end WhaleIntelligence.Recent
