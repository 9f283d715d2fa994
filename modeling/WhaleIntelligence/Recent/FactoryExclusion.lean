import WhaleIntelligence.Recent.ResolverOrder

/- The factory of a token as an actor.

   A launchpad deploys and funds thousands of tokens, so what it shares with a token says
   nothing. The reverse lookup of the actors passes the edges of the factory over; the
   path of the funded wallets does not look whether the deployer is the factory, nor
   whether the funded wallet is. So the edges of the factory can be removed without a
   change exactly where the deployer that funds a wallet is not the factory, and no
   funding of the factory itself is corroborated (`factory_excluded_iff`). -/
namespace WhaleIntelligence.Recent
open WhaleIntelligence FirstWins

/-- The relations that rest on a common actor. -/
def RecentRelation.isActor : RecentRelation → Bool
  | .sameDeployer | .sameFunder | .sameAuthority | .sameFeePayer | .fundedByKnownDeployer => true
  | _ => false

section
variable (x : Crates) (anchor : ActorExtraction) (nodes : List EntityNode) (edges : List EntityEdge)
  (bindings : List SocialIdentityRecord) (now : Int)

/-- The edges whose actor is not the factory of the anchor. -/
def withoutFactory : List EntityEdge := edges.filter fun e => !sameActor x anchor.factory e.fromEntityKey

/-- The edges of the factory make no difference to the relations that rest on a common actor. -/
def FactoryExcluded : Prop :=
  ((resolveCandidates x anchor nodes edges bindings now).filter (·.relation.isActor)).Perm
    ((resolveCandidates x anchor nodes (withoutFactory x anchor edges) bindings now).filter (·.relation.isActor))

/-- The first edge by which the deployer funds the wallet `k`. -/
def FirstFunding (k : IdentityKey) (e : EntityEdge) : Prop :=
  FundingEdge x anchor nodes k e ∧ ∃ pre post, edges = pre ++ e :: post ∧
    ∀ e' ∈ pre, ¬ FundingEdge x anchor nodes k e'

/-- The factory funds no wallet as the deployer, and where the deployer first funds the factory
with an authoritative edge, no edge corroborates it. -/
structure FactoryApart : Prop where
  funder : ∀ k, ∀ e ∈ edges, FundingEdge x anchor nodes k e → sameActor x anchor.factory e.fromEntityKey = false
  funded : ∀ k e, FirstFunding x anchor nodes edges k e → sameActor x anchor.factory e.toEntityKey = true →
    edgeIsAuthoritative x now e = true → ¬ Corroborated x anchor edges bindings now e

end

section
variable {x : Crates} {anchor : ActorExtraction} {nodes : List EntityNode} {edges : List EntityEdge}
  {bindings : List SocialIdentityRecord} {now : Int} {anchorChain : String} {e : EntityEdge} {k : IdentityKey}
  {c : CandidateRelation}

theorem mem_withoutFactory :
    e ∈ withoutFactory x anchor edges ↔ e ∈ edges ∧ sameActor x anchor.factory e.fromEntityKey = false := by
  rw [withoutFactory, List.mem_filter, Bool.not_eq_true']

/-! ## One actor in two spellings -/

theorem sameActor_iff {actor : Option String} {b : String} : sameActor x actor b = true ↔
    ∃ a k, actor = some a ∧ normalizeIdentity x .wallet a = some k ∧ normalizeIdentity x .wallet b = some k := by
  cases actor with
  | none => simp [sameActor]
  | some a => simp [sameActor, sameKey_iff]

/-- Two spellings of one wallet are the same actor as a third or neither is. -/
theorem sameActor_congr {actor : Option String} {a b : String}
    (ha : normalizeIdentity x .wallet a = some k) (hb : normalizeIdentity x .wallet b = some k) :
    sameActor x actor a = sameActor x actor b := by
  rw [Bool.eq_iff_iff, sameActor_iff, sameActor_iff, ha, hb]

/-- The actor that two spellings agree with is one wallet. -/
theorem sameActor_trans {actor other : Option String} {a b : String} (ha : sameActor x actor a = true)
    (hb : sameActor x actor b = true) (h : sameActor x other a = true) : sameActor x other b = true := by
  obtain ⟨s, k, hs, hk, hka⟩ := sameActor_iff.mp ha
  obtain ⟨s', k', hs', hk', hkb⟩ := sameActor_iff.mp hb
  obtain rfl : s = s' := Option.some.inj (hs.symm.trans hs')
  obtain rfl : k = k' := Option.some.inj (hk.symm.trans hk')
  rw [← sameActor_congr hka hkb]
  exact h

/-! ## Where a relation is found -/

theorem relation_of_crossChain {es : List EntityEdge} {d : CandidateRelation}
    (hd : d ∈ es.filterMap (crossChainEmit x anchor now anchorChain)) : d.relation = .crossChainDeployment := by
  obtain ⟨e, -, he⟩ := List.mem_filterMap.mp hd
  obtain ⟨-, -, -, -, k, -, rfl⟩ := crossChainEmit_eq_some.mp he
  rfl

theorem relation_of_actor {es : List EntityEdge} {l : List EntityNode} {d : CandidateRelation}
    (hd : d ∈ l.flatMap (nodeEmits x anchor now es)) :
    d.relation ≠ .crossChainDeployment ∧ d.relation ≠ .fundedByKnownDeployer ∧ d.relation ≠ .reusedSocialLink := by
  obtain ⟨n, -, hn⟩ := List.mem_flatMap.mp hd
  obtain ⟨-, k, -, e, -, -, -, r, hr, rfl⟩ := mem_nodeEmits.mp hn
  exact actorSupport_relation hr

theorem relation_of_funding {es : List EntityEdge} {d : CandidateRelation}
    (hd : d ∈ es.filterMap (fundingEmit x anchor nodes edges bindings now)) :
    d.relation = .fundedByKnownDeployer := by
  obtain ⟨e, -, he⟩ := List.mem_filterMap.mp hd
  obtain ⟨-, -, -, k, -, rfl⟩ := fundingEmit_eq_some.mp he
  rfl

theorem relation_of_social {es : List EntityEdge} {d : CandidateRelation}
    (hd : d ∈ anchor.socialIdentities.flatMap fun s => es.filterMap (socialEmit x nodes s)) :
    d.relation = .reusedSocialLink := by
  obtain ⟨s, -, hs⟩ := List.mem_flatMap.mp hd
  obtain ⟨e, -, he⟩ := List.mem_filterMap.mp hs
  obtain ⟨-, -, -, k, -, rfl⟩ := socialEmit_eq_some.mp he
  rfl

/-- A stream without the relation holds nothing under the key. -/
theorem key_ne_of_relation {l : List CandidateRelation} (h : ∀ d ∈ l, d.relation ≠ c.relation) :
    ∀ d ∈ l, decide (d.key = c.key) = false := by
  intro d hd
  exact decide_eq_false fun hkey => h d hd (key_eq_iff.mp hkey).2

theorem find?_append_of_right {α : Type} {p : α → Bool} (l : List α) {m : List α} (h : ∀ a ∈ m, p a = false) :
    (l ++ m).find? p = l.find? p := by
  have hn : m.find? p = none := List.find?_eq_none.mpr fun a ha => by rw [h a ha]; decide
  rw [List.find?_append, hn, Option.or_none]

/-- The relations of the reverse lookup are found in its own stream. -/
theorem find?_emissions_actor (es : List EntityEdge) (hc : c.relation.isActor = true)
    (hf : c.relation ≠ .fundedByKnownDeployer) :
    (emissions x anchor nodes edges bindings now anchorChain es).find? (fun d => d.key = c.key) =
      ((nodes.filter (·.nodeType == .token)).flatMap (nodeEmits x anchor now es)).find? (fun d => d.key = c.key) := by
  have hcross : c.relation ≠ .crossChainDeployment := fun h => by simp [h, RecentRelation.isActor] at hc
  have hsocial : c.relation ≠ .reusedSocialLink := fun h => by simp [h, RecentRelation.isActor] at hc
  rw [emissions, find?_append_of_right _ (key_ne_of_relation fun d hd =>
    by rw [relation_of_social hd]; exact hsocial.symm),
    find?_append_of_right _ (key_ne_of_relation fun d hd => by rw [relation_of_funding hd]; exact hf.symm),
    find?_append_right _ (key_ne_of_relation fun d hd => by rw [relation_of_crossChain hd]; exact hcross.symm)]

theorem find?_emissions_funding (es : List EntityEdge) (hc : c.relation = .fundedByKnownDeployer) :
    (emissions x anchor nodes edges bindings now anchorChain es).find? (fun d => d.key = c.key) =
      (es.filterMap (fundingEmit x anchor nodes edges bindings now)).find? (fun d => d.key = c.key) := by
  rw [emissions,
    find?_append_of_right _ (key_ne_of_relation fun d hd => by rw [relation_of_social hd, hc]; decide),
    List.append_assoc,
    find?_append_right _ (key_ne_of_relation fun d hd => by rw [relation_of_crossChain hd, hc]; decide),
    find?_append_right _ (key_ne_of_relation fun d hd => by rw [hc]; exact (relation_of_actor hd).2.1)]

theorem mem_output_iff (hch : canonicalChain anchor.token = some anchorChain) :
    c ∈ resolveCandidates x anchor nodes edges bindings now ↔
      (emissions x anchor nodes edges bindings now anchorChain edges).find? (fun d => d.key = c.key) = some c := by
  rw [resolveCandidates_eq hch, List.mem_insertionSort, mem_firstWins]

theorem fundingEmit_any (hc : c.relation = .fundedByKnownDeployer) :
    ((fundingEmit x anchor nodes edges bindings now e).any fun d => d.key = c.key) = true ↔
      FundingEdge x anchor nodes c.toIdentity e := by
  rw [Option.any_eq_true]
  refine ⟨fun h => ?_, fun h => ?_⟩
  · obtain ⟨d, hd, hkey⟩ := h
    obtain ⟨htype, hsource, hnode, k, hk, rfl⟩ := fundingEmit_eq_some.mp hd
    obtain ⟨hid, -⟩ := key_eq_iff.mp (of_decide_eq_true hkey)
    exact ⟨htype, hsource, hid ▸ hk, hnode⟩
  · refine ⟨_, fundingEmit_eq_some.mpr ⟨h.edgeType, h.source, h.node, _, h.target, rfl⟩, ?_⟩
    exact decide_eq_true (key_eq_iff.mpr ⟨rfl, hc.symm⟩)

/-- A funded wallet in the output has the confidence and the evidence of the first edge that funds it. -/
theorem mem_output_funding (hch : canonicalChain anchor.token = some anchorChain)
    (hc : c.relation = .fundedByKnownDeployer) :
    c ∈ resolveCandidates x anchor nodes edges bindings now ↔
      ∃ e, FirstFunding x anchor nodes edges c.toIdentity e ∧
        c = ⟨c.toIdentity, .fundedByKnownDeployer, fundingConfidence x anchor edges bindings now e,
          e.evidenceRefs⟩ := by
  rw [mem_output_iff hch, find?_emissions_funding edges hc, List.find?_filterMap, Option.bind_eq_some_iff]
  refine exists_congr fun e => ?_
  rw [List.find?_eq_some_iff_append, fundingEmit_any hc]
  have hfirst : ∀ pre : List EntityEdge, (∀ e' ∈ pre,
      (!(fundingEmit x anchor nodes edges bindings now e').any fun d => d.key = c.key) = true) ↔
        ∀ e' ∈ pre, ¬ FundingEdge x anchor nodes c.toIdentity e' := by
    intro pre
    refine forall₂_congr fun e' _ => ?_
    rw [← fundingEmit_any hc, Bool.not_eq_true', Bool.not_eq_true]
  simp only [hfirst]
  refine and_congr_right fun h => ?_
  rw [fundingEmit_eq_some]
  refine ⟨fun hemit => ?_, fun heq => ?_⟩
  · obtain ⟨-, -, -, k, hk, hc'⟩ := hemit
    obtain rfl : c.toIdentity = k := Option.some.inj (h.1.target.symm.trans hk)
    exact hc'
  · exact ⟨h.1.edgeType, h.1.source, h.1.node, _, h.1.target, heq⟩

/-! ## The edges of the factory -/

/-- The reverse lookup does not see the edges of the factory. -/
theorem nodeEmits_withoutFactory (n : EntityNode) :
    nodeEmits x anchor now (withoutFactory x anchor edges) n = nodeEmits x anchor now edges n := by
  unfold nodeEmits
  split
  · rfl
  · split
    · rfl
    · rename_i other _
      rw [withoutFactory, List.filter_filter, List.filterMap_filter, List.filterMap_filter]
      apply List.filterMap_congr
      intro e _
      cases hf : sameActor x anchor.factory e.fromEntityKey with
      | false => simp
      | true => simp [actorEmit, hf]

theorem mem_output_actor (hch : canonicalChain anchor.token = some anchorChain) (hc : c.relation.isActor = true)
    (hf : c.relation ≠ .fundedByKnownDeployer) :
    c ∈ resolveCandidates x anchor nodes (withoutFactory x anchor edges) bindings now ↔
      c ∈ resolveCandidates x anchor nodes edges bindings now := by
  rw [mem_output_iff hch, mem_output_iff hch, find?_emissions_actor _ hc hf, find?_emissions_actor _ hc hf,
    show nodeEmits x anchor now (withoutFactory x anchor edges) = nodeEmits x anchor now edges from
      funext nodeEmits_withoutFactory]

theorem corroborated_of_withoutFactory (h : Corroborated x anchor (withoutFactory x anchor edges) bindings now e) :
    Corroborated x anchor edges bindings now e := by
  obtain ⟨occ, hocc, re, hre, hcorroborates⟩ := h
  exact ⟨occ, hocc, re, (mem_withoutFactory.mp hre).1, hcorroborates⟩

/-- What corroborates the funding of a wallet is an edge of that wallet. -/
theorem sameActor_of_corroborates {occ : Int} {re : EntityEdge}
    (h : corroborates x anchor bindings now occ e re = true) :
    sameActor x anchor.factory re.fromEntityKey = sameActor x anchor.factory e.toEntityKey := by
  have hwallet : sameWallet x re.fromEntityKey e.toEntityKey = true := by
    unfold corroborates at h
    simp only [Bool.and_eq_true] at h
    exact h.1.1.1.1.2
  obtain ⟨k, hk, hk'⟩ := sameKey_iff.mp hwallet
  exact sameActor_congr hk hk'

/-- Without the edges of the factory no funding of the factory is corroborated. -/
theorem not_corroborated_factory (hto : sameActor x anchor.factory e.toEntityKey = true) :
    ¬ Corroborated x anchor (withoutFactory x anchor edges) bindings now e := by
  intro h
  obtain ⟨occ, -, re, hre, hcorroborates⟩ := h
  have hfrom := (mem_withoutFactory.mp hre).2
  rw [sameActor_of_corroborates hcorroborates, hto] at hfrom
  cases hfrom

/-- The corroboration of the funding of another wallet needs no edge of the factory. -/
theorem corroborated_withoutFactory (hto : sameActor x anchor.factory e.toEntityKey = false)
    (h : Corroborated x anchor edges bindings now e) :
    Corroborated x anchor (withoutFactory x anchor edges) bindings now e := by
  obtain ⟨occ, hocc, re, hre, hcorroborates⟩ := h
  refine ⟨occ, hocc, re, mem_withoutFactory.mpr ⟨hre, ?_⟩, hcorroborates⟩
  rw [sameActor_of_corroborates hcorroborates, hto]

/-- Where the factory is apart, the first funding of a wallet is as strong without its edges. -/
theorem fundingConfidence_withoutFactory (h : FactoryApart x anchor nodes edges bindings now)
    (hfirst : FirstFunding x anchor nodes edges k e) :
    fundingConfidence x anchor (withoutFactory x anchor edges) bindings now e =
      fundingConfidence x anchor edges bindings now e := by
  have hsame : edgeIsAuthoritative x now e = true →
      ((corroboratingSocialEdge x anchor (withoutFactory x anchor edges) bindings now e).isSome = true ↔
        (corroboratingSocialEdge x anchor edges bindings now e).isSome = true) := by
    intro hauth
    rw [corroboratingSocialEdge_isSome, corroboratingSocialEdge_isSome]
    refine ⟨corroborated_of_withoutFactory, fun hcorr => ?_⟩
    cases hto : sameActor x anchor.factory e.toEntityKey with
    | true => exact absurd hcorr (h.funded k e hfirst hto hauth)
    | false => exact corroborated_withoutFactory hto hcorr
  unfold fundingConfidence
  by_cases hauth : edgeIsAuthoritative x now e = true
  · simp only [hauth, true_and, hsame hauth]
  · simp [hauth]

/-- The first funding of a wallet that is not by the factory stays the first. -/
theorem FirstFunding.withoutFactory (h : FactoryApart x anchor nodes edges bindings now)
    (hfirst : FirstFunding x anchor nodes edges k e) :
    FirstFunding x anchor nodes (withoutFactory x anchor edges) k e := by
  obtain ⟨hedge, pre, post, hsplit, hbefore⟩ := hfirst
  have hmem : e ∈ edges := by rw [hsplit]; exact List.mem_append_right _ List.mem_cons_self
  have hkept := h.funder k e hmem hedge
  refine ⟨hedge, pre.filter (fun e => !sameActor x anchor.factory e.fromEntityKey),
    post.filter (fun e => !sameActor x anchor.factory e.fromEntityKey), ?_, fun e' he' => ?_⟩
  · rw [Recent.withoutFactory, hsplit, List.filter_append, List.filter_cons_of_pos (by simp [hkept])]
  · exact hbefore e' (List.mem_filter.mp he').1

/-- An edge that funds the wallet puts it in the output. -/
theorem exists_funded (hch : canonicalChain anchor.token = some anchorChain) (he : e ∈ edges)
    (hedge : FundingEdge x anchor nodes k e) :
    ∃ c ∈ resolveCandidates x anchor nodes edges bindings now,
      c.toIdentity = k ∧ c.relation = .fundedByKnownDeployer := by
  have halone : ⟨k, .fundedByKnownDeployer, fundingConfidence x anchor edges bindings now e, e.evidenceRefs⟩ ∈
      edgeAlone x anchor nodes edges bindings now e := mem_edgeAlone.mpr ⟨_, hch, .funding k hedge⟩
  obtain ⟨c, hc, hkey⟩ := exists_output he halone
  obtain ⟨hid, hrel⟩ := key_eq_iff.mp hkey
  exact ⟨c, hc, hid, hrel⟩

/-- Where the factory is apart, its edges make no difference to a funded wallet. -/
theorem mem_funding_withoutFactory (hch : canonicalChain anchor.token = some anchorChain)
    (h : FactoryApart x anchor nodes edges bindings now) (hc : c.relation = .fundedByKnownDeployer) :
    c ∈ resolveCandidates x anchor nodes edges bindings now ↔
      c ∈ resolveCandidates x anchor nodes (withoutFactory x anchor edges) bindings now := by
  have hkept : ∀ d, d.relation = .fundedByKnownDeployer → d ∈ resolveCandidates x anchor nodes edges bindings now →
      d ∈ resolveCandidates x anchor nodes (withoutFactory x anchor edges) bindings now := by
    intro d hd hmem
    obtain ⟨e, hfirst, heq⟩ := (mem_output_funding hch hd).mp hmem
    apply (mem_output_funding hch hd).mpr
    refine ⟨e, hfirst.withoutFactory h, ?_⟩
    rw [fundingConfidence_withoutFactory h hfirst]
    exact heq
  refine ⟨hkept c hc, fun hmem => ?_⟩
  -- the wallet is in the output of all edges too, and there is one output for it
  obtain ⟨e, ⟨hedge, pre, post, hsplit, -⟩, -⟩ := (mem_output_funding hch hc).mp hmem
  have he : e ∈ withoutFactory x anchor edges := by rw [hsplit]; exact List.mem_append_right _ List.mem_cons_self
  obtain ⟨d, hd, hid, hrel⟩ := exists_funded hch (mem_withoutFactory.mp he).1 hedge
  have hkey : c.key = d.key := key_eq_iff.mpr ⟨hid.symm, hc.trans hrel.symm⟩
  rw [output_unique hmem (hkept d hrel hd) hkey]
  exact hd

/-- What the exclusion says of each output. -/
theorem factoryExcluded_iff : FactoryExcluded x anchor nodes edges bindings now ↔
    ∀ c : CandidateRelation, c.relation.isActor = true → (c ∈ resolveCandidates x anchor nodes edges bindings now ↔
      c ∈ resolveCandidates x anchor nodes (withoutFactory x anchor edges) bindings now) := by
  have hnodup : ∀ es, ((resolveCandidates x anchor nodes es bindings now).filter (·.relation.isActor)).Nodup :=
    fun es => output_keys_nodup.of_map.filter _
  rw [FactoryExcluded, List.perm_ext_iff_of_nodup (hnodup _) (hnodup _)]
  refine forall_congr' fun c => ?_
  rw [List.mem_filter, List.mem_filter]
  exact ⟨fun h hc => by simpa [hc] using h, fun h => and_congr_left h⟩

theorem factoryApart_of_excluded (hch : canonicalChain anchor.token = some anchorChain)
    (h : FactoryExcluded x anchor nodes edges bindings now) : FactoryApart x anchor nodes edges bindings now := by
  rw [factoryExcluded_iff] at h
  refine ⟨fun k e he hedge => ?_, fun k e hfirst hto hauth hcorr => ?_⟩
  · -- a wallet that the factory funds as the deployer is no longer funded without its edges
    obtain ⟨c, hc, -, hrel⟩ := exists_funded hch he hedge
    obtain ⟨e', ⟨hedge', pre, post, hsplit, -⟩, -⟩ :=
      (mem_output_funding hch hrel).mp ((h c (by rw [hrel]; rfl)).mp hc)
    have he' : e' ∈ withoutFactory x anchor edges := by rw [hsplit]; exact List.mem_append_right _ List.mem_cons_self
    have hnot := (mem_withoutFactory.mp he').2
    by_contra hfactory
    rw [Bool.not_eq_false] at hfactory
    rw [sameActor_trans hedge.source hedge'.source hfactory] at hnot
    cases hnot
  · -- the funding of the factory is reconstructed with its edges only
    have hq : fundingConfidence x anchor edges bindings now e = .reconstructed :=
      if_pos ⟨hauth, corroboratingSocialEdge_isSome.mpr hcorr⟩
    have hmem : (⟨k, .fundedByKnownDeployer, fundingConfidence x anchor edges bindings now e, e.evidenceRefs⟩ :
        CandidateRelation) ∈ resolveCandidates x anchor nodes edges bindings now :=
      (mem_output_funding hch rfl).mpr ⟨e, hfirst, rfl⟩
    obtain ⟨e', hfirst', heq⟩ := (mem_output_funding hch rfl).mp ((h _ rfl).mp hmem)
    have hq' : fundingConfidence x anchor (withoutFactory x anchor edges) bindings now e' = .reconstructed := by
      rw [← hq]
      exact (congrArg CandidateRelation.confidence heq).symm
    have hto' : sameActor x anchor.factory e'.toEntityKey = true := by
      rw [sameActor_congr hfirst'.1.target hfirst.1.target]
      exact hto
    unfold fundingConfidence at hq'
    split at hq'
    · rename_i hboth
      exact not_corroborated_factory hto' (corroboratingSocialEdge_isSome.mp hboth.2)
    · split at hq'
      · cases hq'
      · cases hq'

end

/-- The edges of the factory make no difference to the relations that rest on a common actor exactly
where the factory is apart, or the anchor has no known chain. -/
theorem factory_excluded_iff (x : Crates) (anchor : ActorExtraction) (nodes : List EntityNode)
    (edges : List EntityEdge) (bindings : List SocialIdentityRecord) (now : Int) :
    FactoryExcluded x anchor nodes edges bindings now ↔
      (canonicalChain anchor.token ≠ none → FactoryApart x anchor nodes edges bindings now) := by
  cases hch : canonicalChain anchor.token with
  | none => simp [FactoryExcluded, resolveCandidates, hch]
  | some anchorChain =>
    refine ⟨fun h _ => factoryApart_of_excluded hch h, fun h => ?_⟩
    rw [factoryExcluded_iff]
    intro c hc
    by_cases hf : c.relation = .fundedByKnownDeployer
    · exact mem_funding_withoutFactory hch (h (by simp)) hf
    · exact (mem_output_actor hch hc hf).symm

/-- An anchor whose deployer was recorded as its factory too, and a wallet that it funded. -/
theorem factory_not_excluded : ¬ FactoryExcluded (tableCrates [("1970-01-01T00:00:00Z", 0)] [] [])
    ⟨"solana:AAA", some "solana:D", none, none, some "sol:D", none, []⟩ [⟨"solana:W", .wallet⟩]
    [⟨"solana:D", "solana:W", .fundedBy, "1970-01-01T00:00:00Z", .confirmed, "1970-01-01T00:00:00Z", none, ["tx"]⟩]
    [] 5 := by
  rw [factoryExcluded_iff]
  intro h
  have hout := h ⟨⟨.wallet, "solana:W"⟩, .fundedByKnownDeployer, .estimated, ["tx"]⟩ rfl
  revert hout
  decide

end WhaleIntelligence.Recent
