import Mathlib.Data.List.Forall2
import WhaleIntelligence.Recent.Resolver

/- Alias invariance of the resolver.

   `KeyAlias` relates two spellings of one key: the chain in front of the first
   colon may be any other name of the same chain, and a platform may change the
   case of its ASCII letters. Every comparison of the resolver reads a key
   through `normalizeIdentity`, `canonicalChain` or `canonicalSocialKey`, and
   each of the three gives related keys the same form. So the four paths emit
   the same stream, and the resolver returns the same list. -/
namespace WhaleIntelligence.Recent
open WhaleIntelligence FirstWins

/-! ## Spellings of one key -/

/-- The chain in front of the colon, possibly after blanks, is respelled. -/
inductive ChainAlias : String → String → Prop
  | refl (key : String) : ChainAlias key key
  | respell (blank p q rest : List Char) (chain : String) :
    (∀ a ∈ blank, isWhitespace a = true) →
    canonicalChainName (String.ofList p) = some chain →
    canonicalChainName (String.ofList q) = some chain →
    ChainAlias (String.ofList (blank ++ p ++ ':' :: rest)) (String.ofList (blank ++ q ++ ':' :: rest))

/-- The platform in front of the colon changes the case of its ASCII letters. -/
inductive SocialAlias : String → String → Prop
  | refl (key : String) : SocialAlias key key
  | recase (p q rest : List Char) : ':' ∉ p →
    toAsciiLowercase (String.ofList p) = toAsciiLowercase (String.ofList q) →
    SocialAlias (String.ofList (p ++ ':' :: rest)) (String.ofList (q ++ ':' :: rest))

def KeyAlias (a b : String) : Prop := ChainAlias a b ∨ SocialAlias a b

/-- The anchor's keys respelled, each independently of the others. -/
structure AnchorAlias (a b : ActorExtraction) : Prop where
  token : KeyAlias a.token b.token
  deployer : Option.Rel KeyAlias a.deployer b.deployer
  authority : Option.Rel KeyAlias a.authority b.authority
  feePayer : Option.Rel KeyAlias a.feePayer b.feePayer
  factory : Option.Rel KeyAlias a.factory b.factory
  initialFunder : Option.Rel KeyAlias a.initialFunder b.initialFunder
  socialIdentities : List.Forall₂ SocialAlias a.socialIdentities b.socialIdentities

structure NodeAlias (n m : EntityNode) : Prop where
  entityKey : KeyAlias n.entityKey m.entityKey
  nodeType : n.nodeType = m.nodeType

/-- An edge with respelled ends. The target of a social link is a social key. -/
structure EdgeAlias (e f : EntityEdge) : Prop where
  fromKey : KeyAlias e.fromEntityKey f.fromEntityKey
  toKey : if e.edgeType = .reusedSocialLink then SocialAlias e.toEntityKey f.toEntityKey
    else KeyAlias e.toEntityKey f.toEntityKey
  rest : f = { e with fromEntityKey := f.fromEntityKey, toEntityKey := f.toEntityKey }

/-! ## One form for every spelling -/

theorem toLower_map_eq {p q : List Char}
    (h : toAsciiLowercase (String.ofList p) = toAsciiLowercase (String.ofList q)) :
    p.map Char.toLower = q.map Char.toLower := by
  simpa only [toAsciiLowercase, String.toList_ofList, String.ofList_inj] using h

theorem colon_not_mem_of_lower {p q : List Char} (hp : ':' ∉ p)
    (h : p.map Char.toLower = q.map Char.toLower) : ':' ∉ q := by
  intro hq
  have hl : ':' ∈ p.map Char.toLower := by
    rw [h]
    exact List.mem_map.mpr ⟨':', hq, by decide⟩
  obtain ⟨c, hc, hlc⟩ := List.mem_map.mp hl
  exact hp (toLower_eq_colon hlc ▸ hc)

theorem canonicalChainName_lower {p q : List Char} (h : p.map Char.toLower = q.map Char.toLower) :
    canonicalChainName (String.ofList p) = canonicalChainName (String.ofList q) := by
  simp only [canonicalChainName, toAsciiLowercase, String.toList_ofList, h]

theorem trimStart_lower {p q : List Char} (h : p.map Char.toLower = q.map Char.toLower) :
    (trimStart p).map Char.toLower = (trimStart q).map Char.toLower := by
  rw [← trimStart_map_toLower, h, trimStart_map_toLower]

theorem trimEnd_lower {p q : List Char} (h : p.map Char.toLower = q.map Char.toLower) :
    (trimEnd p).map Char.toLower = (trimEnd q).map Char.toLower := by
  have hr := congrArg List.reverse h
  rw [← List.map_reverse, ← List.map_reverse] at hr
  simp only [trimEnd, List.map_reverse]
  exact congrArg List.reverse (trimStart_lower hr)

theorem chainName_no_colon {p : List Char} {c : String}
    (h : canonicalChainName (String.ofList p) = some c) : ':' ∉ p := by
  have hlow : ∀ e ∈ chainTable, ':' ∉ e.1.toList := by decide
  have hp := hlow _ (mem_chainTable h)
  rw [toAsciiLowercase, String.toList_ofList, String.toList_ofList] at hp
  exact fun hm => hp (List.mem_map.mpr ⟨':', hm, by decide⟩)

theorem colon_not_mem_blank {blank : List Char} (h : ∀ a ∈ blank, isWhitespace a = true) : ':' ∉ blank :=
  fun hm => absurd (h ':' hm) (by decide)

theorem trimStart_blank {blank p : List Char} (h : ∀ a ∈ blank, isWhitespace a = true) :
    trimStart (blank ++ p) = trimStart p := by
  simp only [trimStart, List.dropWhile_append, List.dropWhile_eq_nil_iff.mpr h, List.isEmpty_nil, if_true]

/-- A chain name after a blank is no chain name. -/
theorem canonicalChainName_blank {a : Char} {blank p : List Char} (h : isWhitespace a = true) :
    canonicalChainName (String.ofList (a :: blank ++ p)) = none := by
  cases hc : canonicalChainName (String.ofList (a :: blank ++ p)) with
  | none => rfl
  | some c =>
    have ht := trimStart_chainName hc
    have hlen := congrArg List.length ht
    simp only [trimStart, List.cons_append, List.dropWhile_cons, h, if_true, List.length_cons] at hlen
    have hle := (List.dropWhile_sublist isWhitespace (l := blank ++ p)).length_le
    omega

theorem keyAlias_normalize {x : Crates} {kind : IdentityKind} (hk : kind = .token ∨ kind = .wallet)
    {a b : String} (h : KeyAlias a b) : normalizeIdentity x kind a = normalizeIdentity x kind b := by
  rcases h with h | h
  · cases h with
    | refl => rfl
    | respell blank p q rest c hblank hp hq =>
      have hpc := chainName_no_colon hp
      have hqc := chainName_no_colon hq
      have hbc := colon_not_mem_blank hblank
      rw [normalize_chainKey x hk (by simp [hbc, hpc]), normalize_chainKey x hk (by simp [hbc, hqc]),
        trimStart_blank hblank, trimStart_blank hblank, trimStart_chainName hp, trimStart_chainName hq,
        hp, hq]
  · cases h with
    | refl => rfl
    | recase p q rest hp hl =>
      have hl := toLower_map_eq hl
      rw [normalize_chainKey x hk hp, normalize_chainKey x hk (colon_not_mem_of_lower hp hl),
        canonicalChainName_lower (trimStart_lower hl)]

theorem keyAlias_canonicalChain {a b : String} (h : KeyAlias a b) : canonicalChain a = canonicalChain b := by
  rcases h with h | h
  · cases h with
    | refl => rfl
    | respell blank p q rest c hblank hp hq =>
      have hpc := chainName_no_colon hp
      have hqc := chainName_no_colon hq
      have hbc := colon_not_mem_blank hblank
      rw [canonicalChain_key (by simp [hbc, hpc]), canonicalChain_key (by simp [hbc, hqc])]
      cases blank with
      | nil => rw [List.nil_append, List.nil_append, hp, hq]
      | cons d blank =>
        have hd := hblank d List.mem_cons_self
        rw [canonicalChainName_blank hd, canonicalChainName_blank hd]
  · cases h with
    | refl => rfl
    | recase p q rest hp hl =>
      have hl := toLower_map_eq hl
      rw [canonicalChain_key hp, canonicalChain_key (colon_not_mem_of_lower hp hl),
        canonicalChainName_lower hl]

/-- The canonical form of a `platform:id` key. -/
theorem canonicalSocialKey_key (x : Crates) {p : List Char} (hp : ':' ∉ p) (rest : List Char) :
    canonicalSocialKey x (String.ofList (p ++ ':' :: rest)) =
      if trimStart p = [] ∨ trimEnd rest = [] then none
      else if toAsciiLowercase (trim (String.ofList p)) = "" ∨ trim (String.ofList rest) = "" then none
      else some (toAsciiLowercase (trim (String.ofList p)) ++ ":" ++ trim (String.ofList rest)) := by
  have hp' := colon_not_mem_trimStart hp
  have hne : String.ofList (trimStart p ++ ':' :: trimEnd rest) ≠ "" := by
    rw [Ne, ofList_eq_empty]; simp
  simp only [canonicalSocialKey, normalizeIdentity, trim_key, hne, if_false, chainPrefix,
    splitOnce_ofList hp', splitOnce_ofList hp, ofList_eq_empty]
  by_cases h : trimStart p = [] ∨ trimEnd rest = []
  · simp [h]
  · simp [h]

theorem lower_trim {p q : List Char} (h : p.map Char.toLower = q.map Char.toLower) :
    toAsciiLowercase (trim (String.ofList p)) = toAsciiLowercase (trim (String.ofList q)) := by
  simp only [toAsciiLowercase, trim, String.toList_ofList, trimEnd_lower (trimStart_lower h)]

theorem socialAlias_canonicalSocialKey {x : Crates} {a b : String} (h : SocialAlias a b) :
    canonicalSocialKey x a = canonicalSocialKey x b := by
  cases h with
  | refl => rfl
  | recase p q rest hp hl =>
    have hl := toLower_map_eq hl
    have hempty : trimStart p = [] ↔ trimStart q = [] := by
      rw [← List.map_eq_nil_iff (f := Char.toLower), trimStart_lower hl, List.map_eq_nil_iff]
    rw [canonicalSocialKey_key x hp, canonicalSocialKey_key x (colon_not_mem_of_lower hp hl), lower_trim hl]
    simp only [hempty]

theorem socialAlias_isImmutable {a b : String} (h : SocialAlias a b) (bindings : List SocialIdentityRecord) :
    isImmutableSocialIdentity a bindings = isImmutableSocialIdentity b bindings := by
  cases h with
  | refl => rfl
  | recase p q rest hp hl =>
    have hl := toLower_map_eq hl
    simp only [isImmutableSocialIdentity, splitOnce_ofList hp,
      splitOnce_ofList (colon_not_mem_of_lower hp hl), lower_trim hl]

/-! ## Lists of related elements -/

section
variable {α β γ : Type} {R : α → β → Prop}

theorem filterMap_related {f : α → Option γ} {g : β → Option γ} (hfg : ∀ a b, R a b → f a = g b)
    {l : List α} {m : List β} (h : List.Forall₂ R l m) : l.filterMap f = m.filterMap g := by
  induction h with
  | nil => rfl
  | cons hab _ ih => rw [List.filterMap_cons, List.filterMap_cons, hfg _ _ hab, ih]

theorem flatMap_related {f : α → List γ} {g : β → List γ} (hfg : ∀ a b, R a b → f a = g b)
    {l : List α} {m : List β} (h : List.Forall₂ R l m) : l.flatMap f = m.flatMap g := by
  induction h with
  | nil => rfl
  | cons hab _ ih => rw [List.flatMap_cons, List.flatMap_cons, hfg _ _ hab, ih]

theorem any_related {f : α → Bool} {g : β → Bool} (hfg : ∀ a b, R a b → f a = g b)
    {l : List α} {m : List β} (h : List.Forall₂ R l m) : l.any f = m.any g := by
  induction h with
  | nil => rfl
  | cons hab _ ih => rw [List.any_cons, List.any_cons, hfg _ _ hab, ih]

theorem filter_related {f : α → Bool} {g : β → Bool} (hfg : ∀ a b, R a b → f a = g b)
    {l : List α} {m : List β} (h : List.Forall₂ R l m) : List.Forall₂ R (l.filter f) (m.filter g) := by
  induction h with
  | nil => exact .nil
  | cons hab _ ih =>
    rw [List.filter_cons, List.filter_cons, hfg _ _ hab]
    split
    · exact .cons hab ih
    · exact ih

end

/-! ## The paths read related inputs alike -/

section
variable {x : Crates} {anchor anchor' : ActorExtraction} {nodes nodes' : List EntityNode}
  {edges edges' : List EntityEdge} {bindings : List SocialIdentityRecord} {now : Int}

theorem keyAlias_sameKey {kind : IdentityKind} (hk : kind = .token ∨ kind = .wallet) {a a' b b' : String}
    (ha : KeyAlias a a') (hb : KeyAlias b b') : sameKey x kind a b = sameKey x kind a' b' := by
  simp only [sameKey, keyAlias_normalize hk ha, keyAlias_normalize hk hb]

theorem keyAlias_sameActor {a a' : Option String} {b b' : String} (ha : Option.Rel KeyAlias a a')
    (hb : KeyAlias b b') : sameActor x a b = sameActor x a' b' := by
  cases ha with
  | none => rfl
  | some ha =>
    rw [sameActor, sameActor]
    exact keyAlias_sameKey (Or.inr rfl) ha hb

theorem socialAlias_sameSocialIdentity {a a' b b' : String} (ha : SocialAlias a a') (hb : SocialAlias b b') :
    sameSocialIdentity x a b = sameSocialIdentity x a' b' := by
  simp only [sameSocialIdentity, socialAlias_canonicalSocialKey ha, socialAlias_canonicalSocialKey hb]

theorem keyAlias_emit {kind : IdentityKind} (hk : kind = .token ∨ kind = .wallet) {a a' : String}
    (ha : KeyAlias a a') (relation : RecentRelation) (confidence : RecentConfidence) (evidence : List String) :
    emit x kind a relation confidence evidence = emit x kind a' relation confidence evidence := by
  simp only [emit, keyAlias_normalize hk ha]

namespace EdgeAlias
variable {e f : EntityEdge}

theorem edgeType (h : EdgeAlias e f) : f.edgeType = e.edgeType := by rw [h.rest]
theorem evidenceRefs (h : EdgeAlias e f) : f.evidenceRefs = e.evidenceRefs := by rw [h.rest]
theorem occurredAt (h : EdgeAlias e f) : f.occurredAt = e.occurredAt := by rw [h.rest]
theorem validFrom (h : EdgeAlias e f) : f.validFrom = e.validFrom := by rw [h.rest]
theorem validUntil (h : EdgeAlias e f) : f.validUntil = e.validUntil := by rw [h.rest]

theorem authoritative (h : EdgeAlias e f) : edgeIsAuthoritative x now e = edgeIsAuthoritative x now f := by
  rw [h.rest]
  rfl

theorem target (h : EdgeAlias e f) : KeyAlias e.toEntityKey f.toEntityKey := by
  have ht := h.toKey
  split at ht
  · exact Or.inr ht
  · exact ht

theorem socialTarget (h : EdgeAlias e f) (ht : e.edgeType = .reusedSocialLink) :
    SocialAlias e.toEntityKey f.toEntityKey := by
  simpa only [ht, if_true] using h.toKey

end EdgeAlias

theorem crossChainEmit_alias (ha : AnchorAlias anchor anchor') (ch : String) {e f : EntityEdge}
    (h : EdgeAlias e f) : crossChainEmit x anchor now ch e = crossChainEmit x anchor' now ch f := by
  have hs : sameToken x e.fromEntityKey anchor.token = sameToken x f.fromEntityKey anchor'.token :=
    keyAlias_sameKey (Or.inl rfl) h.fromKey ha.token
  simp only [crossChainEmit, h.edgeType, hs, keyAlias_canonicalChain h.target, h.authoritative,
    keyAlias_emit (Or.inl rfl) h.target, h.evidenceRefs]

theorem actorEmit_alias (ha : AnchorAlias anchor anchor') (other : String) {e f : EntityEdge}
    (h : EdgeAlias e f) : actorEmit x anchor now other e = actorEmit x anchor' now other f := by
  simp only [actorEmit, actorRelation, h.edgeType, keyAlias_sameActor ha.factory h.fromKey,
    keyAlias_sameActor ha.deployer h.fromKey, keyAlias_sameActor ha.initialFunder h.fromKey,
    keyAlias_sameActor ha.authority h.fromKey, keyAlias_sameActor ha.feePayer h.fromKey,
    h.authoritative, h.evidenceRefs]

theorem nodeEmits_alias (ha : AnchorAlias anchor anchor') (he : List.Forall₂ EdgeAlias edges edges')
    {n m : EntityNode} (h : NodeAlias n m) :
    nodeEmits x anchor now edges n = nodeEmits x anchor' now edges' m := by
  have hself : sameToken x n.entityKey anchor.token = sameToken x m.entityKey anchor'.token :=
    keyAlias_sameKey (Or.inl rfl) h.entityKey ha.token
  have hjoin : ∀ e f, EdgeAlias e f →
      sameToken x e.toEntityKey n.entityKey = sameToken x f.toEntityKey m.entityKey :=
    fun e f hef => keyAlias_sameKey (Or.inl rfl) hef.target h.entityKey
  have hemit : ∀ other : String,
      (edges.filter fun e => sameToken x e.toEntityKey n.entityKey).filterMap (actorEmit x anchor now other) =
      (edges'.filter fun f => sameToken x f.toEntityKey m.entityKey).filterMap (actorEmit x anchor' now other) :=
    fun other => filterMap_related (fun _ _ hef => actorEmit_alias ha other hef) (filter_related hjoin he)
  simp only [nodeEmits, hself, keyAlias_normalize (Or.inl rfl) h.entityKey, hemit]

theorem corroborates_alias (ha : AnchorAlias anchor anchor') (occ : Int) {e f re rf : EntityEdge}
    (h : EdgeAlias e f) (hr : EdgeAlias re rf) :
    corroborates x anchor bindings now occ e re = corroborates x anchor' bindings now occ f rf := by
  have hw : sameWallet x re.fromEntityKey e.toEntityKey = sameWallet x rf.fromEntityKey f.toEntityKey :=
    keyAlias_sameKey (Or.inr rfl) hr.fromKey h.target
  by_cases ht : re.edgeType = .reusedSocialLink
  · have hany : (anchor.socialIdentities.any fun s =>
          sameSocialIdentity x re.toEntityKey s && isImmutableSocialIdentity s bindings) =
        anchor'.socialIdentities.any fun s =>
          sameSocialIdentity x rf.toEntityKey s && isImmutableSocialIdentity s bindings := by
      refine any_related (fun s t hst => ?_) ha.socialIdentities
      rw [socialAlias_sameSocialIdentity (hr.socialTarget ht) hst, socialAlias_isImmutable hst]
    simp only [corroborates, hr.edgeType, hw, hr.authoritative, hany, hr.validFrom, hr.validUntil]
  · have hf : (re.edgeType == EdgeType.reusedSocialLink) = false := beq_eq_false_iff_ne.mpr ht
    simp only [corroborates, hr.edgeType, hf, Bool.false_and]

theorem fundingConfidence_alias (ha : AnchorAlias anchor anchor') (he : List.Forall₂ EdgeAlias edges edges')
    {e f : EntityEdge} (h : EdgeAlias e f) :
    fundingConfidence x anchor edges bindings now e = fundingConfidence x anchor' edges' bindings now f := by
  have hc : (corroboratingSocialEdge x anchor edges bindings now e).isSome =
      (corroboratingSocialEdge x anchor' edges' bindings now f).isSome := by
    rw [corroboratingSocialEdge, corroboratingSocialEdge, h.occurredAt]
    cases parseSecs x e.occurredAt with
    | none => rw [Option.bind_none, Option.bind_none]
    | some occ =>
      rw [Option.bind_some, Option.bind_some, List.isSome_find?, List.isSome_find?]
      exact any_related (fun _ _ hr => corroborates_alias ha occ h hr) he
  simp only [fundingConfidence, h.authoritative, hc]

theorem fundingEmit_alias (ha : AnchorAlias anchor anchor') (hn : List.Forall₂ NodeAlias nodes nodes')
    (he : List.Forall₂ EdgeAlias edges edges') {e f : EntityEdge} (h : EdgeAlias e f) :
    fundingEmit x anchor nodes edges bindings now e = fundingEmit x anchor' nodes' edges' bindings now f := by
  have hw : (nodes.any fun n => sameWallet x n.entityKey e.toEntityKey && n.nodeType == .wallet) =
      nodes'.any fun n => sameWallet x n.entityKey f.toEntityKey && n.nodeType == .wallet := by
    refine any_related (fun n m hnm => ?_) hn
    simp only [sameWallet, keyAlias_sameKey (Or.inr rfl) hnm.entityKey h.target, hnm.nodeType]
  simp only [fundingEmit, h.edgeType, keyAlias_sameActor ha.deployer h.fromKey, hw,
    fundingConfidence_alias ha he h, keyAlias_emit (Or.inr rfl) h.target, h.evidenceRefs]

theorem socialEmit_alias (hn : List.Forall₂ NodeAlias nodes nodes') {s t : String} (hst : SocialAlias s t)
    {e f : EntityEdge} (h : EdgeAlias e f) : socialEmit x nodes s e = socialEmit x nodes' t f := by
  by_cases ht : e.edgeType = .reusedSocialLink
  · have hw : (nodes.any fun n => sameToken x n.entityKey e.fromEntityKey && n.nodeType == .token) =
        nodes'.any fun n => sameToken x n.entityKey f.fromEntityKey && n.nodeType == .token := by
      refine any_related (fun n m hnm => ?_) hn
      simp only [sameToken, keyAlias_sameKey (Or.inl rfl) hnm.entityKey h.fromKey, hnm.nodeType]
    simp only [socialEmit, h.edgeType, socialAlias_sameSocialIdentity (h.socialTarget ht) hst, hw,
      keyAlias_emit (Or.inl rfl) h.fromKey, h.evidenceRefs]
  · simp only [socialEmit, h.edgeType, ne_eq, ht, not_false_eq_true, if_true]

/-- Related inputs emit the same stream. -/
theorem emissions_alias (ha : AnchorAlias anchor anchor') (hn : List.Forall₂ NodeAlias nodes nodes')
    (he : List.Forall₂ EdgeAlias edges edges') (ch : String) :
    emissions x anchor nodes edges bindings now ch edges =
      emissions x anchor' nodes' edges' bindings now ch edges' := by
  have hcross : edges.filterMap (crossChainEmit x anchor now ch) =
      edges'.filterMap (crossChainEmit x anchor' now ch) :=
    filterMap_related (fun _ _ h => crossChainEmit_alias ha ch h) he
  have hactor : (nodes.filter (·.nodeType == .token)).flatMap (nodeEmits x anchor now edges) =
      (nodes'.filter (·.nodeType == .token)).flatMap (nodeEmits x anchor' now edges') :=
    flatMap_related (fun _ _ h => nodeEmits_alias ha he h)
      (filter_related (fun _ _ h => by rw [h.nodeType]) hn)
  have hfunding : edges.filterMap (fundingEmit x anchor nodes edges bindings now) =
      edges'.filterMap (fundingEmit x anchor' nodes' edges' bindings now) :=
    filterMap_related (fun _ _ h => fundingEmit_alias ha hn he h) he
  have hsocial : (anchor.socialIdentities.flatMap fun s => edges.filterMap (socialEmit x nodes s)) =
      anchor'.socialIdentities.flatMap fun s => edges'.filterMap (socialEmit x nodes' s) := by
    refine flatMap_related (fun s t hst => ?_) ha.socialIdentities
    exact filterMap_related (fun e f h => socialEmit_alias hn hst h) he
  rw [emissions, emissions, hcross, hactor, hfunding, hsocial]

/-- The resolver returns the same list for every spelling of its keys. -/
theorem resolveCandidates_alias (ha : AnchorAlias anchor anchor') (hn : List.Forall₂ NodeAlias nodes nodes')
    (he : List.Forall₂ EdgeAlias edges edges') :
    resolveCandidates x anchor nodes edges bindings now =
      resolveCandidates x anchor' nodes' edges' bindings now := by
  simp only [resolveCandidates, keyAlias_canonicalChain ha.token, emissions_alias ha hn he]

/-- A deployment of `solana:BBB` under other spellings of its keys. -/
theorem resolveCandidates_alias_respelled :
    resolveCandidates (tableCrates [("1970-01-01T00:00:00Z", 0)] [] [])
        ⟨"sol:AAA", some "Sol:D", none, none, none, none, ["x:7"]⟩ [⟨"solana:BBB", .token⟩]
        [⟨"sol:D", "sol:BBB", .deployedBy, "1970-01-01T00:00:00Z", .confirmed, "1970-01-01T00:00:00Z", none,
          ["tx"]⟩] [] 5 =
      resolveCandidates (tableCrates [("1970-01-01T00:00:00Z", 0)] [] [])
        ⟨"SOLANA:AAA", some "solana:D", none, none, none, none, ["X:7"]⟩ [⟨"SOL:BBB", .token⟩]
        [⟨"solana:D", "solana:BBB", .deployedBy, "1970-01-01T00:00:00Z", .confirmed, "1970-01-01T00:00:00Z",
          none, ["tx"]⟩] [] 5 := by
  have key : ∀ p q rest : List Char, canonicalChainName (String.ofList p) = some "solana" →
      canonicalChainName (String.ofList q) = some "solana" →
      KeyAlias (String.ofList (p ++ ':' :: rest)) (String.ofList (q ++ ':' :: rest)) :=
    fun p q rest hp hq => Or.inl (.respell [] p q rest "solana" (fun _ h => nomatch h) hp hq)
  have hx : SocialAlias "x:7" "X:7" := .recase "x".toList "X".toList "7".toList (by decide) (by decide)
  refine resolveCandidates_alias ⟨?_, .some ?_, .none, .none, .none, .none, .cons hx .nil⟩
    (.cons ⟨?_, rfl⟩ .nil) (.cons ⟨?_, ?_, rfl⟩ .nil)
  · exact key "sol".toList "SOLANA".toList "AAA".toList (by decide) (by decide)
  · exact key "Sol".toList "solana".toList "D".toList (by decide) (by decide)
  · exact key "solana".toList "SOL".toList "BBB".toList (by decide) (by decide)
  · exact key "sol".toList "solana".toList "D".toList (by decide) (by decide)
  · exact key "sol".toList "solana".toList "BBB".toList (by decide) (by decide)

end

/-- The case of a letter outside ASCII is no alias: the two edges below differ in
the case of `É` only, and one of them reuses the anchor's identity. -/
theorem resolveCandidates_nonAscii_case :
    resolveCandidates (tableCrates [] [] []) ⟨"solana:AAA", none, none, none, none, none, ["É:1"]⟩
        [⟨"solana:BBB", .token⟩]
        [⟨"solana:BBB", "É:1", .reusedSocialLink, "", .unknown, "", none, []⟩] [] 0 ≠
      resolveCandidates (tableCrates [] [] []) ⟨"solana:AAA", none, none, none, none, none, ["É:1"]⟩
        [⟨"solana:BBB", .token⟩]
        [⟨"solana:BBB", "é:1", .reusedSocialLink, "", .unknown, "", none, []⟩] [] 0 := by
  decide

end WhaleIntelligence.Recent
