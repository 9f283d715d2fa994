import WhaleIntelligence.Recent.Resolver

/- What the output of the resolver says about its input.

   `resolveCandidates_noSelf`: three of the four paths never return the anchor
   itself; the social path does, exactly when the anchor's own token node and an
   own social edge are in the graph. `resolveCandidates_sound`: an `exact`
   output rests on one authoritative edge of the type its relation requires, and
   a `reconstructed` one on an authoritative funding and one authoritative
   social edge whose window contains the funding. -/
namespace WhaleIntelligence.Recent
open WhaleIntelligence FirstWins

section
variable (x : Crates) (anchor : ActorExtraction) (nodes : List EntityNode) (edges : List EntityEdge)
  (bindings : List SocialIdentityRecord) (now : Int)

/-- No token relation has the anchor as its target. -/
def NoSelfRelation : Prop :=
  ∀ c ∈ resolveCandidates x anchor nodes edges bindings now, c.toIdentity.kind = .token →
    normalizeIdentity x .token anchor.token ≠ some c.toIdentity

/-- The edge links the anchor's own token, which is a node of the graph, to one
of the anchor's social identities. -/
structure OwnSocialLink (e : EntityEdge) : Prop where
  edgeType : e.edgeType = .reusedSocialLink
  source : sameToken x e.fromEntityKey anchor.token = true
  target : ∃ s ∈ anchor.socialIdentities, sameSocialIdentity x e.toEntityKey s = true
  node : ∃ n ∈ nodes, n.nodeType = .token ∧ sameToken x n.entityKey anchor.token = true

/-- Confirmed, with evidence, and valid at `now`. -/
structure Authoritative (e : EntityEdge) : Prop where
  confirmed : e.truthStatus = .confirmed
  evidence : e.evidenceRefs ≠ []
  validFrom : ∃ t, parseSecs x e.validFrom = some t ∧ t ≤ now
  validUntil : ∀ u, e.validUntil = some u → ∃ t, parseSecs x u = some t ∧ now ≤ t

/-- The edge `e` justifies the exact candidate `c`. -/
structure ExactSupport (c : CandidateRelation) (e : EntityEdge) : Prop where
  target : normalizeIdentity x .token e.toEntityKey = some c.toIdentity
  authoritative : Authoritative x now e
  evidence : e.evidenceRefs = c.evidenceRefs
  relation : ActorSupport x anchor c.relation e ∨
    (c.relation = .crossChainDeployment ∧ e.edgeType = .crossChainDeployment ∧
      sameToken x e.fromEntityKey anchor.token = true ∧
      ∃ here there, canonicalChain anchor.token = some here ∧ canonicalChain e.toEntityKey = some there ∧
        there ≠ here)

/-- Some record asserts the id of the social key as an account id and does not
list it as a handle. -/
def AccountId (s : String) : Prop :=
  ∃ platform id, splitOnce ':' s = some (platform, id) ∧ ∃ b ∈ bindings,
    toAsciiLowercase (trim b.platform) = toAsciiLowercase (trim platform) ∧
    trim b.immutableUserId = trim id ∧ ∀ h ∈ b.handles, eqIgnoreAsciiCase (trim h) (trim id) = false

/-- The funding edge `e` and the social edge `re` justify the reconstructed
candidate `c`. -/
structure ReconstructedSupport (c : CandidateRelation) (e re : EntityEdge) : Prop where
  relation : c.relation = .fundedByKnownDeployer
  kind : c.toIdentity.kind = .wallet
  fundingType : e.edgeType = .fundedBy
  fundingSource : sameActor x anchor.deployer e.fromEntityKey = true
  fundingTarget : normalizeIdentity x .wallet e.toEntityKey = some c.toIdentity
  funding : Authoritative x now e
  evidence : e.evidenceRefs = c.evidenceRefs
  socialType : re.edgeType = .reusedSocialLink
  socialSource : normalizeIdentity x .wallet re.fromEntityKey = some c.toIdentity
  social : Authoritative x now re
  window : ∃ occ, parseSecs x e.occurredAt = some occ ∧
    (∃ t, parseSecs x re.validFrom = some t ∧ t ≤ occ) ∧
    ∀ u, re.validUntil = some u → ∃ t, parseSecs x u = some t ∧ occ ≤ t
  identity : ∃ s ∈ anchor.socialIdentities, sameSocialIdentity x re.toEntityKey s = true ∧ AccountId bindings s

end

section
variable {x : Crates} {anchor : ActorExtraction} {nodes : List EntityNode} {edges : List EntityEdge}
  {bindings : List SocialIdentityRecord} {now : Int}

/-! ## Self-relations -/

theorem sameToken_anchor {a b : String} {k : IdentityKey} (ha : normalizeIdentity x .token a = some k)
    (hb : normalizeIdentity x .token b = some k) : sameToken x a b = true := sameKey_iff.mpr ⟨k, ha, hb⟩

theorem normalize_of_sameToken {a b : String} {k : IdentityKey} (h : sameToken x a b = true)
    (hb : normalizeIdentity x .token b = some k) : normalizeIdentity x .token a = some k := by
  obtain ⟨k', ha, hb'⟩ := sameKey_iff.mp h
  cases hb.symm.trans hb'
  exact ha

/-- A candidate that is the anchor itself comes from an own social link. -/
theorem ownSocialLink_of_emitted {anchorChain : String} (hch : canonicalChain anchor.token = some anchorChain)
    {e : EntityEdge} {c : CandidateRelation} (hk : c.toIdentity.kind = .token)
    (hself : normalizeIdentity x .token anchor.token = some c.toIdentity)
    (h : Emitted x anchor nodes edges bindings now anchorChain e c) : OwnSocialLink x anchor nodes e := by
  cases h with
  | crossChain k h =>
    obtain ⟨t, ht, hne⟩ := h.otherChain
    have hto := canonicalChain_normalize (Or.inl rfl) ht h.target
    have hanchor := canonicalChain_normalize (Or.inl rfl) hch hself
    exact absurd (Option.some.inj (hto.symm.trans hanchor)) hne
  | actor k r h =>
    obtain ⟨n, -, -, hnot, hnk⟩ := h.node
    rw [sameToken_anchor hnk hself] at hnot
    cases hnot
  | funding k h =>
    have hkind := normalize_kind h.target
    exact absurd (hkind.symm.trans hk) (by decide)
  | social k h =>
    obtain ⟨n, hn, hs, hnt⟩ := h.node
    exact ⟨h.edgeType, sameToken_anchor h.source hself, h.target, n, hn, hnt,
      sameToken_anchor (normalize_of_sameToken hs h.source) hself⟩

/-- The resolver returns the anchor itself exactly when an edge of the graph is
an own social link. -/
theorem resolveCandidates_noSelf :
    NoSelfRelation x anchor nodes edges bindings now ↔
      ¬ (canonicalChain anchor.token ≠ none ∧ ∃ e ∈ edges, OwnSocialLink x anchor nodes e) := by
  refine ⟨fun h hlink => ?_, fun h c hc hk hself => ?_⟩
  · obtain ⟨hch, e, he, hown⟩ := hlink
    obtain ⟨ch, hch⟩ := Option.ne_none_iff_exists'.mp hch
    obtain ⟨k, hfrom, hanchor⟩ := sameKey_iff.mp hown.source
    obtain ⟨n, hn, hnt, hns⟩ := hown.node
    have hnode := sameToken_anchor (normalize_of_sameToken hns hanchor) hfrom
    have hem : Emitted x anchor nodes edges bindings now ch e ⟨k, .reusedSocialLink, .insufficient, e.evidenceRefs⟩ :=
      .social k ⟨hown.edgeType, hown.target, hfrom, n, hn, hnode, hnt⟩
    obtain ⟨d, hd, hdk⟩ := exists_output he (mem_edgeAlone.mpr ⟨ch, hch, hem⟩)
    have hdk : d.toIdentity = k := (key_eq_iff.mp hdk).1
    exact h d hd (hdk ▸ normalize_kind hfrom) (hdk ▸ hanchor)
  · obtain ⟨ch, hch, e, he, hem⟩ := exists_emitted hc
    exact h ⟨by rw [hch]; simp, e, he, ownSocialLink_of_emitted hch hk hself hem⟩

/-- The anchor's own token node and an own social link give a self-relation. -/
theorem resolveCandidates_noSelf_fails :
    ¬ NoSelfRelation (tableCrates [("1970-01-01T00:00:00Z", 0)] [] [])
      ⟨"solana:AAA", none, none, none, none, none, ["x:7"]⟩ [⟨"solana:AAA", .token⟩]
      [⟨"solana:AAA", "x:7", .reusedSocialLink, "1970-01-01T00:00:00Z", .confirmed, "1970-01-01T00:00:00Z",
        none, ["post"]⟩] [] 5 :=
  fun h => h ⟨⟨.token, "solana:AAA"⟩, .reusedSocialLink, .insufficient, ["post"]⟩ (by decide) rfl (by decide)

/-! ## Confidence -/

theorem edgeIsAuthoritative_iff {e : EntityEdge} :
    edgeIsAuthoritative x now e = true ↔ Authoritative x now e := by
  refine ⟨fun h => ?_, fun h => ?_⟩
  · unfold edgeIsAuthoritative at h
    split at h
    · cases h
    · rename_i hc
      split at h
      · cases h
      · rename_i hev
        split at h
        · cases h
        · rename_i t ht
          split at h
          · cases h
          · rename_i hfrom
            refine ⟨not_not.mp hc, fun hnil => hev (by rw [hnil]; rfl), ⟨t, ht, by omega⟩, ?_⟩
            intro u hu
            rw [hu] at h
            dsimp only at h
            split at h
            · rename_i t' ht'
              exact ⟨t', ht', of_decide_eq_true h⟩
            · cases h
  · obtain ⟨hc, hev, ⟨t, ht, hfrom⟩, huntil⟩ := h
    have hempty : e.evidenceRefs.isEmpty = false := by
      cases he : e.evidenceRefs with
      | nil => exact absurd he hev
      | cons => rfl
    have hlt : ¬ now < t := by omega
    unfold edgeIsAuthoritative
    simp only [hc, hempty, ht, hlt, ne_eq, not_true_eq_false, if_false, Bool.false_eq_true]
    cases hu : e.validUntil with
    | none => rfl
    | some u =>
      obtain ⟨t', ht', hle⟩ := huntil u hu
      simp only [ht', hle, decide_true]

theorem accountId_of_isImmutable {s : String} (h : isImmutableSocialIdentity s bindings = true) :
    AccountId bindings s := by
  unfold isImmutableSocialIdentity at h
  split at h
  · cases h
  · rename_i platform id hs
    dsimp only at h
    split at h
    · cases h
    · obtain ⟨b, hb, hcond⟩ := List.any_eq_true.mp h
      simp only [Bool.and_eq_true, beq_iff_eq, Bool.not_eq_true', List.any_eq_false,
        Bool.not_eq_true] at hcond
      exact ⟨platform, id, hs, b, hb, hcond.1.1, hcond.1.2, hcond.2⟩

theorem exactSupport_of_emitted {anchorChain : String} (hch : canonicalChain anchor.token = some anchorChain)
    {e : EntityEdge} {c : CandidateRelation} (hq : c.confidence = .exact)
    (h : Emitted x anchor nodes edges bindings now anchorChain e c) : ExactSupport x anchor now c e := by
  cases h with
  | crossChain k h =>
    obtain ⟨t, ht, hne⟩ := h.otherChain
    exact ⟨h.target, edgeIsAuthoritative_iff.mp h.authoritative, rfl,
      Or.inr ⟨rfl, h.edgeType, h.source, anchorChain, t, hch, ht, hne⟩⟩
  | actor k r h =>
    have ha : edgeIsAuthoritative x now e = true := by
      by_contra hna
      simp only [actorConfidence, hna] at hq
      cases hq
    exact ⟨h.target, edgeIsAuthoritative_iff.mp ha, rfl, Or.inl h.support⟩
  | funding k h =>
    unfold fundingConfidence at hq
    dsimp only at hq
    split at hq
    · cases hq
    · split at hq <;> cases hq
  | social => cases hq

theorem reconstructedSupport_of_emitted {anchorChain : String} {e : EntityEdge} {c : CandidateRelation}
    (hq : c.confidence = .reconstructed) (h : Emitted x anchor nodes edges bindings now anchorChain e c) :
    ∃ re ∈ edges, ReconstructedSupport x anchor bindings now c e re := by
  cases h with
  | crossChain => cases hq
  | actor k r h =>
    unfold actorConfidence at hq
    dsimp only at hq
    split at hq <;> cases hq
  | social => cases hq
  | funding k h =>
    unfold fundingConfidence at hq
    dsimp only at hq
    split at hq
    · rename_i hcond
      obtain ⟨ha, hsome⟩ := hcond
      obtain ⟨re, hre⟩ := Option.isSome_iff_exists.mp hsome
      obtain ⟨occ, hocc, hfind⟩ := Option.bind_eq_some_iff.mp hre
      have hcor := List.find?_some hfind
      simp only [corroborates, Bool.and_eq_true, beq_iff_eq, List.any_eq_true] at hcor
      obtain ⟨⟨⟨⟨⟨htype, hwallet⟩, hauth⟩, s, hs, hsame, himm⟩, hfrom⟩, huntil⟩ := hcor
      have hre := edgeIsAuthoritative_iff.mp hauth
      obtain ⟨k', hk', hk⟩ := sameKey_iff.mp hwallet
      cases h.target.symm.trans hk
      refine ⟨re, List.mem_of_find?_eq_some hfind, rfl, normalize_kind h.target, h.edgeType, h.source, h.target,
        edgeIsAuthoritative_iff.mp ha, rfl, htype, hk', hre, ⟨occ, hocc, ?_, ?_⟩,
        s, hs, hsame, accountId_of_isImmutable himm⟩
      · obtain ⟨t, ht, -⟩ := hre.validFrom
        rw [ht] at hfrom
        exact ⟨t, ht, of_decide_eq_true hfrom⟩
      · intro u hu
        obtain ⟨t, ht, -⟩ := hre.validUntil u hu
        rw [hu, Option.bind_some, ht] at huntil
        exact ⟨t, ht, of_decide_eq_true huntil⟩
    · split at hq <;> cases hq

variable (nodes bindings) in
/-- Every exact output rests on one authoritative edge, and every reconstructed
one on a funding and one corroborating social edge. -/
theorem resolveCandidates_sound {c : CandidateRelation}
    (h : c ∈ resolveCandidates x anchor nodes edges bindings now) :
    (c.confidence = .exact → ∃ e ∈ edges, ExactSupport x anchor now c e) ∧
    (c.confidence = .reconstructed →
      ∃ e ∈ edges, ∃ re ∈ edges, ReconstructedSupport x anchor bindings now c e re) := by
  obtain ⟨ch, hch, e, he, hem⟩ := exists_emitted h
  refine ⟨fun hq => ⟨e, he, exactSupport_of_emitted hch hq hem⟩, fun hq => ?_⟩
  exact ⟨e, he, reconstructedSupport_of_emitted hq hem⟩

/-- A deployer's own wallet funded while it links the anchor's account, and a
second token of the deployer. -/
theorem resolveCandidates_sound_deployer :
    (∃ e ∈ [(⟨"sol:D", "sol:BBB", .deployedBy, "1970-01-01T00:00:00Z", .confirmed, "1970-01-01T00:00:00Z", none,
          ["tx1"]⟩ : EntityEdge)],
      ExactSupport (tableCrates [("1970-01-01T00:00:00Z", 0)] [] [])
        ⟨"sol:AAA", some "solana:D", none, none, none, none, []⟩ 5
        ⟨⟨.token, "solana:BBB"⟩, .sameDeployer, .exact, ["tx1"]⟩ e) ∧
    ∃ e ∈ [(⟨"sol:D", "sol:W", .fundedBy, "1970-01-01T00:00:00Z", .confirmed, "1970-01-01T00:00:00Z", none,
          ["tx2"]⟩ : EntityEdge),
        ⟨"solana:W", "X:7", .reusedSocialLink, "1970-01-01T00:00:00Z", .confirmed, "1970-01-01T00:00:00Z", none,
          ["post"]⟩],
      ∃ re ∈ [(⟨"sol:D", "sol:W", .fundedBy, "1970-01-01T00:00:00Z", .confirmed, "1970-01-01T00:00:00Z", none,
          ["tx2"]⟩ : EntityEdge),
        ⟨"solana:W", "X:7", .reusedSocialLink, "1970-01-01T00:00:00Z", .confirmed, "1970-01-01T00:00:00Z", none,
          ["post"]⟩],
        ReconstructedSupport (tableCrates [("1970-01-01T00:00:00Z", 0)] [] [])
          ⟨"sol:AAA", some "solana:D", none, none, none, none, ["x:7"]⟩ [⟨"x", "7", ["alice"]⟩] 5
          ⟨⟨.wallet, "solana:W"⟩, .fundedByKnownDeployer, .reconstructed, ["tx2"]⟩ e re := by
  refine ⟨?_, ?_⟩
  · exact (resolveCandidates_sound [⟨"solana:BBB", .token⟩] [] (by decide)).1 rfl
  · exact (resolveCandidates_sound [⟨"sol:W", .wallet⟩] _ (by decide)).2 rfl

end

end WhaleIntelligence.Recent
