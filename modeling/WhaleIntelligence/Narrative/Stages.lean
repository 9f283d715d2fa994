import WhaleIntelligence.Rust

/- `sf::narrative_runtime`: how far the provenance of a narrative is proved.

   A proof is made by `verify` alone, so what `verify` checks are fields of it. The
   stages count as far as the proofs at the head of the list are of the narrative and of
   the stages in their order. A chain of one run is proved within it
   (`resolve_within_run`), but of which run a proof is, is not looked at: a chain may be
   put together from many runs (`twoRuns_resolve`). -/
namespace WhaleIntelligence.Narrative
open WhaleIntelligence

/-! ## Proofs of stages -/

inductive ProvenanceStage
  | deployFirstLiquidity | metadataFingerprint | localArchiveSearch | exactAliasWebXTiktokSearch
  | ocrAsrImagePhoneticExpansion | earliestEvidence | originAdoptionPropagationGraph
  deriving DecidableEq, Repr

def stageIndex : ProvenanceStage → Nat
  | .deployFirstLiquidity => 0
  | .metadataFingerprint => 1
  | .localArchiveSearch => 2
  | .exactAliasWebXTiktokSearch => 3
  | .ocrAsrImagePhoneticExpansion => 4
  | .earliestEvidence => 5
  | .originAdoptionPropagationGraph => 6

inductive StageArtifactKind
  | evidenceRef | graphAssemblyRecord
  deriving DecidableEq, Repr

/-- The kind of artifact that a stage requires; the earlier stages take any. -/
def kindOk : ProvenanceStage → StageArtifactKind → Bool
  | .earliestEvidence, kind => kind = .evidenceRef
  | .originAdoptionPropagationGraph, kind => kind = .graphAssemblyRecord
  | _, _ => true

structure VerifiedStageProof where
  narrativeKey : String
  runId : String
  stage : ProvenanceStage
  artifactId : String
  artifactKind : StageArtifactKind
  bound : trim narrativeKey ≠ "" ∧ trim runId ≠ ""
  present : trim artifactId ≠ ""
  kind : kindOk stage artifactKind = true
  deriving DecidableEq

def VerifiedStageProof.hasArtifact (p : VerifiedStageProof) : Bool := trim p.artifactId ≠ ""

/-- The artifact is in the store that the stage looks it up in; the earlier stages look nowhere. -/
def artifactExists (evidenceRefs graphRecords : List String) (artifactId : String) : ProvenanceStage → Bool
  | .earliestEvidence => evidenceRefs.contains artifactId
  | .originAdoptionPropagationGraph => graphRecords.contains artifactId
  | _ => true

def VerifiedStageProof.verify (narrativeKey runId : String) (stage : ProvenanceStage) (artifactId : String)
    (artifactKind : StageArtifactKind) (evidenceRefs graphRecords : List String) : Option VerifiedStageProof :=
  if h : (trim narrativeKey ≠ "" ∧ trim runId ≠ "") ∧ trim artifactId ≠ "" ∧ kindOk stage artifactKind = true then
    if artifactExists evidenceRefs graphRecords artifactId stage then
      some ⟨narrativeKey, runId, stage, artifactId, artifactKind, h.1, h.2.1, h.2.2⟩
    else none
  else none

/-- Every proof is one that `verify` makes. -/
theorem VerifiedStageProof.verify_self (p : VerifiedStageProof) :
    verify p.narrativeKey p.runId p.stage p.artifactId p.artifactKind [p.artifactId] [p.artifactId] = some p := by
  have hexists : artifactExists [p.artifactId] [p.artifactId] p.artifactId p.stage = true := by
    cases p.stage <;> simp [artifactExists]
  rw [verify, dif_pos ⟨p.bound, p.present, p.kind⟩, if_pos hexists]

/-! ## The resolution -/

inductive ProvenanceRole
  | originator | independentSpread | officialAdopter | deployer | callerAmplifier | marketLeadingContract
  deriving DecidableEq, Repr

structure NarrativeEdge where
  fromKey : String
  role : ProvenanceRole
  deriving DecidableEq, Repr

structure NarrativeResolution where
  narrativeKey : String
  resolvedStage : ProvenanceStage
  originator : Option String
  independentSpread : List String
  officialAdopter : Option String
  marketLeadingContract : Option String
  deriving DecidableEq, Repr

/-- `contiguous_stage`, from the stage that is expected next. -/
def contiguousStage (narrativeKey : String) (expected : Nat) (last : ProvenanceStage) :
    List VerifiedStageProof → ProvenanceStage
  | [] => last
  | p :: rest =>
    if p.narrativeKey ≠ narrativeKey then last
    else if stageIndex p.stage ≠ expected then last
    else if !p.hasArtifact then last
    else if !kindOk p.stage p.artifactKind then last
    else contiguousStage narrativeKey (expected + 1) p.stage rest

/-- The first edge of a role. -/
def firstOf (role : ProvenanceRole) (edges : List NarrativeEdge) : Option String :=
  (edges.find? fun e => e.role = role).map NarrativeEdge.fromKey

def resolve (narrativeKey : String) (edges : List NarrativeEdge) (completedStages : List VerifiedStageProof) :
    NarrativeResolution where
  narrativeKey
  resolvedStage := contiguousStage narrativeKey 0 .deployFirstLiquidity completedStages
  originator := firstOf .originator edges
  independentSpread := (edges.filter fun e => e.role = .independentSpread).map NarrativeEdge.fromKey
  officialAdopter := firstOf .officialAdopter edges
  marketLeadingContract := firstOf .marketLeadingContract edges

/-! ## The chain of proofs -/

/-- The proofs at the head of the list that are of the narrative and of the stages in their order. -/
def leading (narrativeKey : String) (expected : Nat) : List VerifiedStageProof → List VerifiedStageProof
  | [] => []
  | p :: rest =>
    if p.narrativeKey = narrativeKey ∧ stageIndex p.stage = expected then p :: leading narrativeKey (expected + 1) rest
    else []

/-- The list has a proof of the stage for this narrative and run, with an artifact of the kind the stage requires. -/
def Proved (narrativeKey runId : String) (proofs : List VerifiedStageProof) (index : Nat) : Prop :=
  ∃ p ∈ proofs, p.narrativeKey = narrativeKey ∧ p.runId = runId ∧ stageIndex p.stage = index ∧
    trim p.artifactId ≠ "" ∧ kindOk p.stage p.artifactKind = true

section
variable {narrativeKey : String} {proofs : List VerifiedStageProof} {last : ProvenanceStage} {expected : Nat}

/-- The stage that the chain reaches is that of its last proof. -/
theorem contiguousStage_leading (narrativeKey : String) (proofs : List VerifiedStageProof) (last : ProvenanceStage)
    (expected : Nat) : contiguousStage narrativeKey expected last proofs =
      (((leading narrativeKey expected proofs).getLast?).map VerifiedStageProof.stage).getD last := by
  induction proofs generalizing expected last with
  | nil => rfl
  | cons p rest ih =>
    have hartifact : p.hasArtifact = true := decide_eq_true p.present
    rw [contiguousStage, leading]
    by_cases hkey : p.narrativeKey = narrativeKey
    · by_cases hstage : stageIndex p.stage = expected
      · rw [if_neg (not_not_intro hkey), if_neg (not_not_intro hstage), hartifact, p.kind]
        simp only [Bool.not_true, Bool.false_eq_true, if_false]
        rw [if_pos ⟨hkey, hstage⟩, List.getLast?_cons, ih]
        cases (leading narrativeKey (expected + 1) rest).getLast? <;> rfl
      · rw [if_neg (not_not_intro hkey), if_pos hstage, if_neg fun h => hstage h.2]
        rfl
    · rw [if_pos hkey, if_neg fun h => hkey h.1]
      rfl

/-- The chain has a proof of the narrative for each stage from the expected one on. -/
theorem leading_getElem {i : Nat} {p : VerifiedStageProof} (h : (leading narrativeKey expected proofs)[i]? = some p) :
    p ∈ proofs ∧ p.narrativeKey = narrativeKey ∧ stageIndex p.stage = expected + i := by
  induction proofs generalizing expected i with
  | nil => cases h
  | cons q rest ih =>
    rw [leading] at h
    split at h
    · rename_i hq
      cases i with
      | zero =>
        rw [List.getElem?_cons_zero, Option.some.injEq] at h
        exact h ▸ ⟨List.mem_cons_self, hq⟩
      | succ i =>
        rw [List.getElem?_cons_succ] at h
        obtain ⟨hmem, hkey, hstage⟩ := ih h
        exact ⟨List.mem_cons_of_mem _ hmem, hkey, by omega⟩
    · cases h

/-- The index of the resolved stage is one less than the length of the chain. -/
theorem stageIndex_resolve (edges : List NarrativeEdge) : stageIndex (resolve narrativeKey edges proofs).resolvedStage =
    (leading narrativeKey 0 proofs).length - 1 := by
  show stageIndex (contiguousStage narrativeKey 0 .deployFirstLiquidity proofs) = _
  rw [contiguousStage_leading]
  cases hlast : (leading narrativeKey 0 proofs).getLast? with
  | none =>
    rw [List.getLast?_eq_none_iff.mp hlast]
    rfl
  | some p =>
    rw [List.getLast?_eq_getElem?] at hlast
    have hstage := (leading_getElem hlast).2.2
    rw [Option.map_some, Option.getD_some, hstage, Nat.zero_add]

/-- A run that has proofs of the stages of the chain proves each of them. -/
theorem proved_of_stages {runId : String} (h : ∀ q ∈ leading narrativeKey 0 proofs,
      ∃ p ∈ proofs, p.narrativeKey = narrativeKey ∧ p.runId = runId ∧ p.stage = q.stage) {i : Nat}
    (hlt : i < (leading narrativeKey 0 proofs).length) : Proved narrativeKey runId proofs i := by
  have hget := List.getElem?_eq_getElem hlt
  obtain ⟨p, hp, hkey, hrunId, hstage⟩ := h _ (List.getElem_mem hlt)
  have hq := (leading_getElem hget).2.2
  exact ⟨p, hp, hkey, hrunId, by rw [hstage, hq, Nat.zero_add], p.present, p.kind⟩

/-- A chain whose proofs are all of one run proves each stage up to the resolved one within it. -/
theorem resolve_within_run {runId : String} (edges : List NarrativeEdge) (hne : leading narrativeKey 0 proofs ≠ [])
    (hrun : ∀ q ∈ leading narrativeKey 0 proofs, q.runId = runId) {i : Nat}
    (hi : i ≤ stageIndex (resolve narrativeKey edges proofs).resolvedStage) : Proved narrativeKey runId proofs i := by
  rw [stageIndex_resolve] at hi
  have hpos : 0 < (leading narrativeKey 0 proofs).length := List.length_pos_of_ne_nil hne
  refine proved_of_stages (fun q hq => ?_) (show i < _ by omega)
  obtain ⟨j, hj⟩ := List.getElem?_of_mem hq
  obtain ⟨hmem, hkey, -⟩ := leading_getElem hj
  exact ⟨q, hmem, hkey, hrun q hq, rfl⟩

/-- A stage after the first is proved within one run exactly where some run has proofs of all the stages of
the chain. -/
theorem resolve_one_run_iff (narrativeKey : String) (edges : List NarrativeEdge) (proofs : List VerifiedStageProof) :
    (∀ k, stageIndex (resolve narrativeKey edges proofs).resolvedStage = k → 1 ≤ k →
        ∃ runId, ∀ i ≤ k, Proved narrativeKey runId proofs i) ↔
      (2 ≤ (leading narrativeKey 0 proofs).length → ∃ runId, ∀ q ∈ leading narrativeKey 0 proofs,
        ∃ p ∈ proofs, p.narrativeKey = narrativeKey ∧ p.runId = runId ∧ p.stage = q.stage) := by
  have hinj : ∀ {s t}, stageIndex s = stageIndex t → s = t := by
    intro s t h
    cases s <;> cases t <;> first | rfl | cases h
  rw [stageIndex_resolve]
  refine ⟨fun h hlength => ?_, fun h k hk hpos => ?_⟩
  · obtain ⟨runId, hproved⟩ := h _ rfl (by omega)
    refine ⟨runId, fun q hq => ?_⟩
    obtain ⟨i, hi⟩ := List.getElem?_of_mem hq
    have hlt : i < (leading narrativeKey 0 proofs).length := (List.getElem?_eq_some_iff.mp hi).1
    obtain ⟨p, hp, hkey, hrun, hstage, -⟩ := hproved i (by omega)
    have hq := (leading_getElem hi).2.2
    exact ⟨p, hp, hkey, hrun, hinj (by omega)⟩
  · obtain ⟨runId, hrun⟩ := h (by omega)
    exact ⟨runId, fun i hi => proved_of_stages hrun (by omega)⟩

end

/-- The first two stages, each proved in a run of its own. -/
theorem twoRuns_resolve : ∃ p q,
    VerifiedStageProof.verify "narr" "run1" .deployFirstLiquidity "p0" .evidenceRef [] [] = some p ∧
    VerifiedStageProof.verify "narr" "run2" .metadataFingerprint "p1" .evidenceRef [] [] = some q ∧
    (resolve "narr" [] [p, q]).resolvedStage = .metadataFingerprint ∧
    ¬ ∃ runId, ∀ i ≤ 1, Proved "narr" runId [p, q] i := by
  refine ⟨_, _, rfl, rfl, rfl, fun h => ?_⟩
  obtain ⟨runId, hrun⟩ := h
  obtain ⟨p, hp, -, hrun0, hstage0, -⟩ := hrun 0 (by decide)
  obtain ⟨q, hq, -, hrun1, hstage1, -⟩ := hrun 1 (by decide)
  simp only [List.mem_cons, List.not_mem_nil, or_false] at hp hq
  obtain rfl | rfl := hp
  · obtain rfl | rfl := hq
    · cases hstage1
    · rw [← hrun1] at hrun0
      exact absurd hrun0 (by decide)
  · cases hstage0

end WhaleIntelligence.Narrative
