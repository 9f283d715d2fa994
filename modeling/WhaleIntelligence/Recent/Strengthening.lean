import WhaleIntelligence.Recent.ResolverOrder

/- What more identity records change.

   The records of a workspace are read in one place, the corroboration of a funding, and
   there every record speaks for itself: a handle in one record does not deny the id in
   another. So the streams under two lists of records have the same elements in the
   same places, and where the second list has all records of the first, its stream is
   the stronger one (`forall₂_emissions`). The keys do not depend on the confidence, so
   the same elements are kept of both. -/
namespace WhaleIntelligence.Recent
open WhaleIntelligence FirstWins

/-- The second relation is the first, or it is the same funding, corroborated. -/
inductive Strengthens : CandidateRelation → CandidateRelation → Prop
  | same (c : CandidateRelation) : Strengthens c c
  | corroborated (k : IdentityKey) (evidence : List String) :
    Strengthens ⟨k, .fundedByKnownDeployer, .estimated, evidence⟩ ⟨k, .fundedByKnownDeployer, .reconstructed, evidence⟩

/-- The relation without its confidence. -/
def CandidateRelation.support (c : CandidateRelation) : IdentityKey × RecentRelation × List String :=
  (c.toIdentity, c.relation, c.evidenceRefs)

namespace Strengthens
variable {c c' : CandidateRelation}

theorem support (h : Strengthens c c') : c.support = c'.support := by
  cases h with
  | same => rfl
  | corroborated => rfl

theorem key (h : Strengthens c c') : c.key = c'.key := by
  cases h with
  | same => rfl
  | corroborated => rfl

theorem rank_le (h : Strengthens c c') : c.confidence.rank ≤ c'.confidence.rank := by
  cases h with
  | same => exact le_rfl
  | corroborated => simp [RecentConfidence.rank]

/-- The confidence changes in one way only. -/
theorem of_ne (h : Strengthens c c') (hne : c'.confidence ≠ c.confidence) :
    c.relation = .fundedByKnownDeployer ∧ c.confidence = .estimated ∧ c'.confidence = .reconstructed := by
  cases h with
  | same => exact absurd rfl hne
  | corroborated => exact ⟨rfl, rfl, rfl⟩

end Strengthens

section
variable {x : Crates} {anchor : ActorExtraction} {nodes : List EntityNode} {edges : List EntityEdge}
  {bindings bindings' : List SocialIdentityRecord} {now occ : Int} {anchorChain : String} {e re : EntityEdge}

/-- Every record speaks for itself. -/
theorem isImmutable_mono (h : bindings ⊆ bindings') {s : String}
    (hs : isImmutableSocialIdentity s bindings = true) : isImmutableSocialIdentity s bindings' = true := by
  unfold isImmutableSocialIdentity at hs ⊢
  split
  · rename_i hnone
    rw [hnone] at hs
    exact hs
  · rename_i platform id hsome
    rw [hsome] at hs
    dsimp only at hs ⊢
    split
    · rename_i hempty
      rwa [if_pos hempty] at hs
    · rename_i hempty
      rw [if_neg hempty, List.any_eq_true] at hs
      obtain ⟨b, hb, hrecord⟩ := hs
      exact List.any_eq_true.mpr ⟨b, h hb, hrecord⟩

theorem not_isImmutable_nil (s : String) : isImmutableSocialIdentity s [] = false := by
  unfold isImmutableSocialIdentity
  split
  · rfl
  · dsimp only
    split
    · rfl
    · rfl

theorem corroborates_mono (h : bindings ⊆ bindings') (hc : corroborates x anchor bindings now occ e re = true) :
    corroborates x anchor bindings' now occ e re = true := by
  unfold corroborates at hc ⊢
  simp only [Bool.and_eq_true, List.any_eq_true] at hc ⊢
  obtain ⟨⟨⟨hedge, s, hs, hsame, himmutable⟩, hfrom⟩, huntil⟩ := hc
  exact ⟨⟨⟨hedge, s, hs, hsame, isImmutable_mono h himmutable⟩, hfrom⟩, huntil⟩

theorem corroborated_mono (h : bindings ⊆ bindings') (hc : Corroborated x anchor edges bindings now e) :
    Corroborated x anchor edges bindings' now e := by
  obtain ⟨occ, hocc, re, hre, hcorroborates⟩ := hc
  exact ⟨occ, hocc, re, hre, corroborates_mono h hcorroborates⟩

theorem not_corroborated_nil : ¬ Corroborated x anchor edges [] now e := by
  intro hc
  obtain ⟨occ, -, re, -, hcorroborates⟩ := hc
  simp [corroborates, not_isImmutable_nil] at hcorroborates

/-- Without a record a funding is estimated at most. -/
theorem fundingConfidence_nil : fundingConfidence x anchor edges [] now e ≠ .reconstructed := by
  unfold fundingConfidence
  split
  · rename_i h
    exact absurd (corroboratingSocialEdge_isSome.mp h.2) not_corroborated_nil
  · split
    · decide
    · decide

/-- More records leave a funding as it is or corroborate it. -/
theorem fundingConfidence_cases (h : bindings ⊆ bindings') (e : EntityEdge) :
    fundingConfidence x anchor edges bindings now e = fundingConfidence x anchor edges bindings' now e ∨
      (fundingConfidence x anchor edges bindings now e = .estimated ∧
        fundingConfidence x anchor edges bindings' now e = .reconstructed) := by
  have hmono : (corroboratingSocialEdge x anchor edges bindings now e).isSome = true →
      (corroboratingSocialEdge x anchor edges bindings' now e).isSome = true := by
    intro hc
    apply corroboratingSocialEdge_isSome.mpr
    exact corroborated_mono h (corroboratingSocialEdge_isSome.mp hc)
  unfold fundingConfidence
  by_cases ha : edgeIsAuthoritative x now e = true
  · by_cases hc : (corroboratingSocialEdge x anchor edges bindings now e).isSome = true
    · simp [ha, hc, hmono hc]
    · by_cases hc' : (corroboratingSocialEdge x anchor edges bindings' now e).isSome = true
      · simp [ha, hc, hc']
      · simp [ha, hc, hc']
  · simp [ha]

theorem fundingEmit_rel (h : bindings ⊆ bindings') (e : EntityEdge) :
    Option.Rel Strengthens (fundingEmit x anchor nodes edges bindings now e)
      (fundingEmit x anchor nodes edges bindings' now e) := by
  have hrefl : ∀ o : Option CandidateRelation, Option.Rel Strengthens o o := by
    intro o
    cases o with
    | none => exact .none
    | some c => exact .some (.same c)
  unfold fundingEmit
  -- the checks before the emission do not read the records
  split
  · exact .none
  · split
    · exact .none
    · split
      · exact .none
      · rcases fundingConfidence_cases (x := x) h e with heq | ⟨hq, hq'⟩
        · rw [heq]
          exact hrefl _
        · rw [hq, hq', emit, emit]
          cases normalizeIdentity x .wallet e.toEntityKey with
          | none => exact .none
          | some k => exact .some (.corroborated k e.evidenceRefs)

/-- The streams under two lists of records, element by element. -/
theorem forall₂_emissions (h : bindings ⊆ bindings') (es : List EntityEdge) :
    List.Forall₂ Strengthens (emissions x anchor nodes edges bindings now anchorChain es)
      (emissions x anchor nodes edges bindings' now anchorChain es) := by
  have hrefl : ∀ l : List CandidateRelation, List.Forall₂ Strengthens l l :=
    fun l => List.forall₂_same.mpr fun c _ => .same c
  have hfunding : List.Forall₂ Strengthens (es.filterMap (fundingEmit x anchor nodes edges bindings now))
      (es.filterMap (fundingEmit x anchor nodes edges bindings' now)) := by
    have hsame : List.Forall₂ (· = ·) es es := List.forall₂_same.mpr fun _ _ => rfl
    apply List.rel_filterMap _ hsame
    intro e e' heq
    rw [← heq]
    exact fundingEmit_rel h e
  unfold emissions
  exact List.rel_append (List.rel_append (hrefl _) hfunding) (hrefl _)

/-- What is kept of the two streams, element by element. -/
theorem forall₂_kept (h : bindings ⊆ bindings') (anchorChain : String) :
    List.Forall₂ Strengthens
      (firstWins CandidateRelation.key (emissions x anchor nodes edges bindings now anchorChain edges))
      (firstWins CandidateRelation.key (emissions x anchor nodes edges bindings' now anchorChain edges)) :=
  forall₂_firstWins (fun _ _ => Strengthens.key) (forall₂_emissions h edges)

theorem support_perm (h : bindings ⊆ bindings') :
    ((resolveCandidates x anchor nodes edges bindings now).map CandidateRelation.support).Perm
      ((resolveCandidates x anchor nodes edges bindings' now).map CandidateRelation.support) := by
  cases hch : canonicalChain anchor.token with
  | none => simp [resolveCandidates, hch]
  | some ch =>
    have hkept : (firstWins CandidateRelation.key
        (emissions x anchor nodes edges bindings now ch edges)).map CandidateRelation.support =
        (firstWins CandidateRelation.key
          (emissions x anchor nodes edges bindings' now ch edges)).map CandidateRelation.support := by
      rw [← List.forall₂_eq_eq_eq, List.forall₂_map_left_iff, List.forall₂_map_right_iff]
      exact (forall₂_kept h ch).imp fun _ _ hs => hs.support
    rw [resolveCandidates_eq hch, resolveCandidates_eq hch]
    apply ((List.perm_insertionSort candidateLe _).map _).trans
    rw [hkept]
    exact ((List.perm_insertionSort candidateLe _).map _).symm

/-- Two outputs for one key. -/
theorem strengthens_of_key (h : bindings ⊆ bindings') {c c' : CandidateRelation}
    (hc : c ∈ resolveCandidates x anchor nodes edges bindings now)
    (hc' : c' ∈ resolveCandidates x anchor nodes edges bindings' now) (hkey : c.key = c'.key) : Strengthens c c' := by
  obtain ⟨ch, hch, hmem⟩ := mem_resolveCandidates.mp hc
  obtain ⟨d, hd, hs⟩ : ∃ d ∈ firstWins CandidateRelation.key
      (emissions x anchor nodes edges bindings' now ch edges), Strengthens c d :=
    exists_of_forall₂ (forall₂_kept h ch) hmem
  have hout : d ∈ resolveCandidates x anchor nodes edges bindings' now := mem_resolveCandidates.mpr ⟨ch, hch, hd⟩
  rwa [output_unique hout hc' (hs.key.symm.trans hkey)] at hs

theorem not_reconstructed_nil {c : CandidateRelation} (hc : c ∈ resolveCandidates x anchor nodes edges [] now) :
    c.confidence ≠ .reconstructed := by
  obtain ⟨ch, -, e, -, he⟩ := exists_emitted hc
  cases he with
  | crossChain => simp
  | actor =>
    unfold actorConfidence
    split
    · simp
    · simp
  | funding => exact fundingConfidence_nil
  | social => simp

end

/-- More identity records give the same relations with the same evidence, and raise only fundings,
from estimated to reconstructed; without records nothing is reconstructed. -/
theorem resolveCandidates_strengthens (x : Crates) (anchor : ActorExtraction) (nodes : List EntityNode)
    (edges : List EntityEdge) (now : Int) :
    (∀ bindings bindings' : List SocialIdentityRecord, bindings.Subperm bindings' →
      ((resolveCandidates x anchor nodes edges bindings now).map CandidateRelation.support).Perm
        ((resolveCandidates x anchor nodes edges bindings' now).map CandidateRelation.support) ∧
      ∀ c ∈ resolveCandidates x anchor nodes edges bindings now,
        ∀ c' ∈ resolveCandidates x anchor nodes edges bindings' now, c.key = c'.key →
          c.support = c'.support ∧ c.confidence.rank ≤ c'.confidence.rank ∧
          (c'.confidence ≠ c.confidence → c.relation = .fundedByKnownDeployer ∧ c.confidence = .estimated ∧
            c'.confidence = .reconstructed)) ∧
    ∀ c ∈ resolveCandidates x anchor nodes edges [] now, c.confidence ≠ .reconstructed := by
  refine ⟨fun bindings bindings' h => ⟨support_perm h.subset, ?_⟩, fun c hc => not_reconstructed_nil hc⟩
  intro c hc c' hc' hkey
  have hs := strengthens_of_key h.subset hc hc' hkey
  exact ⟨hs.support, hs.rank_le, hs.of_ne⟩

/-- A funding of a wallet that reuses the account of the anchor, without and with the record of the account. -/
theorem resolveCandidates_strengthens_account :
    let x := tableCrates [("1970-01-01T00:00:00Z", 0)] [] []
    let anchor : ActorExtraction := ⟨"solana:AAA", some "solana:D", none, none, none, none, ["x:12345"]⟩
    let nodes : List EntityNode := [⟨"solana:W", .wallet⟩]
    let edges : List EntityEdge :=
      [⟨"solana:D", "solana:W", .fundedBy, "1970-01-01T00:00:00Z", .confirmed, "1970-01-01T00:00:00Z", none, ["tx"]⟩,
       ⟨"solana:W", "x:12345", .reusedSocialLink, "1970-01-01T00:00:00Z", .confirmed, "1970-01-01T00:00:00Z", none,
        ["post"]⟩]
    ((resolveCandidates x anchor nodes edges [] 5).map CandidateRelation.support).Perm
      ((resolveCandidates x anchor nodes edges [⟨"x", "12345", ["alice"]⟩] 5).map CandidateRelation.support) ∧
    RecentConfidence.estimated.rank ≤ RecentConfidence.reconstructed.rank := by
  intro x anchor nodes edges
  obtain ⟨hperm, hstronger⟩ := (resolveCandidates_strengthens x anchor nodes edges 5).1 []
    [⟨"x", "12345", ["alice"]⟩] List.nil_subperm
  exact ⟨hperm, (hstronger ⟨⟨.wallet, "solana:W"⟩, .fundedByKnownDeployer, .estimated, ["tx"]⟩ (by decide)
    ⟨⟨.wallet, "solana:W"⟩, .fundedByKnownDeployer, .reconstructed, ["tx"]⟩ (by decide) rfl).2.1⟩

end WhaleIntelligence.Recent
