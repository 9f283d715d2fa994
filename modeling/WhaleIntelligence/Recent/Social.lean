import WhaleIntelligence.Recent.ResolverAlias

/- The relation of a social observation: `classify_social`.

   An announcement is official when the announced contract and the contract of the
   binding are the anchor contract, the account is the one that is bound, the time is
   within the binding and there is evidence. The contracts are compared as raw texts,
   so a respelled chain takes the official relation away, and the relation is the same
   under another spelling exactly where the three texts agree in both or in neither
   (`classifySocial_alias_iff`). -/
namespace WhaleIntelligence.Recent
open WhaleIntelligence

inductive SocialEvidenceKind where
  | officialCaAnnouncement | mention | profileCaChange | profileLinkChange
  deriving DecidableEq, Repr

structure SocialEvidenceObservation where
  immutableAccountId : String
  publishedAt : DateTime
  announcedContract : Option String
  relationKind : SocialEvidenceKind
  rawRef : String
  deriving DecidableEq, Repr

structure OfficialSocialBinding where
  immutableAccountId : String
  chainQualifiedContract : String
  validFrom : DateTime
  validUntil : Option DateTime
  deriving DecidableEq, Repr

def classifySocial (obs : SocialEvidenceObservation) (anchorContract : String)
    (officialBinding : Option OfficialSocialBinding) : RecentRelation :=
  match obs.relationKind with
  | .profileCaChange | .profileLinkChange => .reusedSocialLink
  | .officialCaAnnouncement =>
    let caMatches := (obs.announcedContract.map fun ca => ca == anchorContract).getD false
    let bindingValid := officialBinding.any fun b =>
      b.immutableAccountId == obs.immutableAccountId && b.chainQualifiedContract == anchorContract &&
        decide (b.validFrom ≤ obs.publishedAt) && (b.validUntil.map fun u => decide (obs.publishedAt ≤ u)).getD true
    let hasEvidence := trim obs.rawRef != ""
    if caMatches && bindingValid && hasEvidence then .officialCaAnnouncement else .sameSocialAccount
  | .mention => .sameSocialAccount

/-! ## Official announcements -/

/-- An announcement by the bound account, within the binding and with evidence, whatever the contracts. -/
structure Announces (obs : SocialEvidenceObservation) (b : OfficialSocialBinding) : Prop where
  kind : obs.relationKind = .officialCaAnnouncement
  account : b.immutableAccountId = obs.immutableAccountId
  since : b.validFrom ≤ obs.publishedAt
  notAfter : ∀ u, b.validUntil = some u → obs.publishedAt ≤ u
  evidence : trim obs.rawRef ≠ ""

/-- The three contracts are one text. -/
def Alike (obs : SocialEvidenceObservation) (anchor : String) (b : OfficialSocialBinding) : Prop :=
  obs.announcedContract = some anchor ∧ b.chainQualifiedContract = anchor

/-- The three contracts are one token, in any spelling. -/
def OneToken (x : Crates) (obs : SocialEvidenceObservation) (anchor : String) (b : OfficialSocialBinding) : Prop :=
  (∃ ca, obs.announcedContract = some ca ∧ sameToken x ca anchor = true) ∧
    sameToken x b.chainQualifiedContract anchor = true

section
variable {x : Crates} {obs obs' : SocialEvidenceObservation} {anchor anchor' : String}
  {binding binding' : Option OfficialSocialBinding} {b b' : OfficialSocialBinding}

theorem classifySocial_official_iff : classifySocial obs anchor binding = .officialCaAnnouncement ↔
    ∃ b, binding = some b ∧ Announces obs b ∧ Alike obs anchor b := by
  cases hkind : obs.relationKind with
  | officialCaAnnouncement =>
    cases binding with
    | none => simp [classifySocial, hkind]
    | some b =>
      have huntil : (b.validUntil.map fun u => decide (obs.publishedAt ≤ u)).getD true = true ↔
          ∀ u, b.validUntil = some u → obs.publishedAt ≤ u := by
        cases b.validUntil <;> simp
      have hca : (obs.announcedContract.map fun ca => ca == anchor).getD false = true ↔
          obs.announcedContract = some anchor := by
        cases obs.announcedContract <;> simp
      have hchecks : classifySocial obs anchor (some b) = .officialCaAnnouncement ↔
          (obs.announcedContract = some anchor ∧
            ((b.immutableAccountId = obs.immutableAccountId ∧ b.chainQualifiedContract = anchor) ∧
              b.validFrom ≤ obs.publishedAt) ∧ ∀ u, b.validUntil = some u → obs.publishedAt ≤ u) ∧
            trim obs.rawRef ≠ "" := by
        rw [← hca, ← huntil]
        simp [classifySocial, hkind, and_assoc]
      rw [hchecks]
      constructor
      · rintro ⟨⟨hann, ⟨⟨haccount, hcontract⟩, hsince⟩, hend⟩, hevidence⟩
        exact ⟨b, rfl, ⟨hkind, haccount, hsince, hend, hevidence⟩, hann, hcontract⟩
      · rintro ⟨b', hb, h, hann, hcontract⟩
        rw [Option.some_inj] at hb
        subst hb
        exact ⟨⟨hann, ⟨⟨h.account, hcontract⟩, h.since⟩, h.notAfter⟩, h.evidence⟩
  | mention =>
    apply iff_of_false (by simp [classifySocial, hkind])
    rintro ⟨b, -, h, -⟩
    exact absurd (hkind.symm.trans h.kind) (by decide)
  | profileCaChange =>
    apply iff_of_false (by simp [classifySocial, hkind])
    rintro ⟨b, -, h, -⟩
    exact absurd (hkind.symm.trans h.kind) (by decide)
  | profileLinkChange =>
    apply iff_of_false (by simp [classifySocial, hkind])
    rintro ⟨b, -, h, -⟩
    exact absurd (hkind.symm.trans h.kind) (by decide)

/-- What the relation is where it is not official depends on the kind alone. -/
theorem classifySocial_eq_iff (hkind : obs'.relationKind = obs.relationKind) :
    classifySocial obs' anchor' binding' = classifySocial obs anchor binding ↔
      (classifySocial obs' anchor' binding' = .officialCaAnnouncement ↔
        classifySocial obs anchor binding = .officialCaAnnouncement) := by
  cases hobs : obs.relationKind with
  | officialCaAnnouncement =>
    have hor : ∀ {o a b}, SocialEvidenceObservation.relationKind o = .officialCaAnnouncement →
        classifySocial o a b = .officialCaAnnouncement ∨ classifySocial o a b = .sameSocialAccount := by
      intro o a b ho
      simp only [classifySocial, ho]
      split
      · exact Or.inl rfl
      · exact Or.inr rfl
    obtain h | h := hor (a := anchor) (b := binding) hobs
    · simp [h]
    · obtain h' | h' := hor (a := anchor') (b := binding') (hkind.trans hobs) <;> simp [h, h']
  | _ => simp [classifySocial, hkind, hobs]

/-! ## Other spellings -/

/-- The announced contract respelled. -/
structure ObservationAlias (obs obs' : SocialEvidenceObservation) : Prop where
  announced : Option.Rel ChainAlias obs.announcedContract obs'.announcedContract
  rest : obs' = { obs with announcedContract := obs'.announcedContract }

/-- The contract of the binding respelled. -/
structure BindingAlias (b b' : OfficialSocialBinding) : Prop where
  contract : ChainAlias b.chainQualifiedContract b'.chainQualifiedContract
  rest : b' = { b with chainQualifiedContract := b'.chainQualifiedContract }

theorem Announces.alias (hobs : ObservationAlias obs obs') (hb : BindingAlias b b') :
    Announces obs b ↔ Announces obs' b' := by
  rw [hobs.rest, hb.rest]
  constructor
  · rintro ⟨hkind, haccount, hsince, huntil, hevidence⟩
    exact ⟨hkind, haccount, hsince, huntil, hevidence⟩
  · rintro ⟨hkind, haccount, hsince, huntil, hevidence⟩
    exact ⟨hkind, haccount, hsince, huntil, hevidence⟩

/-- The three contracts respelled, each independently of the others. -/
structure Respelled (obs obs' : SocialEvidenceObservation) (anchor anchor' : String)
    (binding binding' : Option OfficialSocialBinding) : Prop where
  observation : ObservationAlias obs obs'
  anchor : ChainAlias anchor anchor'
  binding : Option.Rel BindingAlias binding binding'

/-- The relation is the same under other spellings, and official for a genuine announcement under both,
    exactly where the three contracts are one text in both, or in neither and not one token. -/
theorem classifySocial_alias_iff (h : Respelled obs obs' anchor anchor' binding binding') :
    (classifySocial obs' anchor' binding' = classifySocial obs anchor binding ∧
      ∀ b, binding = some b → Announces obs b → OneToken x obs anchor b →
        classifySocial obs anchor binding = .officialCaAnnouncement ∧
          classifySocial obs' anchor' binding' = .officialCaAnnouncement) ↔
      ∀ b, binding = some b → ∀ b', binding' = some b' → Announces obs b →
        (Alike obs anchor b ∧ Alike obs' anchor' b') ∨
          (¬Alike obs anchor b ∧ ¬Alike obs' anchor' b' ∧ ¬OneToken x obs anchor b) := by
  obtain ⟨hobs, -, hbinding⟩ := h
  have hkind : obs'.relationKind = obs.relationKind := by rw [hobs.rest]
  rw [classifySocial_eq_iff hkind, classifySocial_official_iff, classifySocial_official_iff]
  cases hbinding with
  | none => simp
  | @some b b' hb =>
    have hann : Announces obs b ↔ Announces obs' b' := Announces.alias hobs hb
    simp only [Option.some_inj, exists_eq_left', forall_eq', ← hann]
    by_cases h : Announces obs b
    · simp only [h, true_and, forall_const]
      constructor
      · rintro ⟨hsame, hone⟩
        by_cases halike : Alike obs anchor b
        · exact Or.inl ⟨halike, hsame.mpr halike⟩
        · exact Or.inr ⟨halike, fun h' => halike (hsame.mp h'), fun h' => halike (hone h').1⟩
      · rintro (⟨halike, halike'⟩ | ⟨halike, halike', hone⟩)
        · exact ⟨iff_of_true halike' halike, fun _ => ⟨halike, halike'⟩⟩
        · exact ⟨iff_of_false halike' halike, fun h' => absurd h' hone⟩
    · simp [h]

def announcement (contract : String) : SocialEvidenceObservation :=
  ⟨"x:acct", 10, some contract, .officialCaAnnouncement, "raw"⟩

def bound (contract : String) : OfficialSocialBinding := ⟨"x:acct", contract, 0, none⟩

theorem chainAlias_solana : ChainAlias "sol:AAA" "solana:AAA" := by
  apply ChainAlias.respell [] ['s', 'o', 'l'] ['s', 'o', 'l', 'a', 'n', 'a'] ['A', 'A', 'A'] "solana"
  · simp
  · decide
  · decide

/-- The respelled binding takes the official relation away. -/
theorem respelled_binding_not_official :
    Respelled (announcement "sol:AAA") (announcement "sol:AAA") "sol:AAA" "sol:AAA"
      (some (bound "sol:AAA")) (some (bound "solana:AAA")) ∧
    classifySocial (announcement "sol:AAA") "sol:AAA" (some (bound "sol:AAA")) = .officialCaAnnouncement ∧
    classifySocial (announcement "sol:AAA") "sol:AAA" (some (bound "solana:AAA")) = .sameSocialAccount := by
  refine ⟨⟨⟨?_, rfl⟩, ChainAlias.refl _, ?_⟩, by decide, by decide⟩
  · exact Option.Rel.some (ChainAlias.refl _)
  · exact Option.Rel.some ⟨chainAlias_solana, rfl⟩

/-- All three respelled alike keep it. -/
theorem respelled_alike_official :
    classifySocial (announcement "solana:AAA") "solana:AAA" (some (bound "solana:AAA")) =
        classifySocial (announcement "sol:AAA") "sol:AAA" (some (bound "sol:AAA")) ∧
      ∀ b, some (bound "sol:AAA") = some b → Announces (announcement "sol:AAA") b →
        OneToken (tableCrates [] [] []) (announcement "sol:AAA") "sol:AAA" b →
        classifySocial (announcement "sol:AAA") "sol:AAA" (some (bound "sol:AAA")) = .officialCaAnnouncement ∧
          classifySocial (announcement "solana:AAA") "solana:AAA" (some (bound "solana:AAA")) =
            .officialCaAnnouncement := by
  apply (classifySocial_alias_iff ⟨⟨Option.Rel.some chainAlias_solana, rfl⟩, chainAlias_solana,
    Option.Rel.some ⟨chainAlias_solana, rfl⟩⟩).mpr
  intro b hb b' hb' _
  rw [Option.some_inj] at hb hb'
  subst hb hb'
  exact Or.inl ⟨⟨rfl, rfl⟩, rfl, rfl⟩

end

end WhaleIntelligence.Recent
