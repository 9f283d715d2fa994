import Mathlib.Data.String.Basic
import WhaleIntelligence.Recent.Pipeline

/- When a pass publishes a candidate.

   A store keeps relation rows that three releases wrote, each under its own
   encoding of the key. `candidateStored_iff`: the keys of a candidate, the
   current one and the superseded ones with the semantic comparison, find a row
   exactly when some row of the workspace was published for the same tuple. So a
   pass appends a candidate exactly when its tuple was never published, whichever
   release wrote the store (`runPass_publishes`). -/
namespace WhaleIntelligence.Recent
open WhaleIntelligence Framing SerialTable

/-! ## Rows and the tuples they were published for -/

/-- The row was published for the tuple of `c` at the anchor. -/
structure Publishes (r : RecentEventRow) (anchor : String) (c : CandidateRelation) : Prop where
  eventType : r.eventType = "relation_resolved"
  anchor : r.anchorIdentity = anchor
  relation : r.relation = some c.relation
  target : r.relatedIdentities = [c.toIdentity]
  confidence : r.confidenceLevel = c.confidence.asStr
  evidence : ∀ e, e ∈ r.evidenceRefs ↔ e ∈ c.evidenceRefs

/-- Some row of the workspace was published for the tuple of `c`. -/
def Published (workspace : WorkspaceScope) (t : RecentEvents) (anchor : String) (c : CandidateRelation) : Prop :=
  ∃ r ∈ t.rows, r.2.workspaceId = workspace.id ∧ Publishes r.2 anchor c

/-- The key input of a candidate. -/
def candidateInput (workspace : WorkspaceScope) (anchor : String) (c : CandidateRelation) : RelationKeyInput :=
  relationKeyInput workspace anchor c.relation.asStr c.toIdentity.value c.toIdentity.kind c.confidence
    c.evidenceRefs

/-- The releases, by what they hash. -/
inductive Encoding where
  | current | rev065 | rev063
  deriving DecidableEq, Repr

def Encoding.preimage : Encoding → RelationKeyInput → Bytes
  | .current => relationPreimage
  | .rev065 => relationPreimageRev065
  | .rev063 => relationPreimageRev063

/-- The row is one that a release wrote for `c`, under its own key. -/
structure ReleasedAs (x : Crates) (workspace : WorkspaceScope) (r : RecentEventRow) (anchor : String)
    (c : CandidateRelation) (enc : Encoding) : Prop where
  publishes : Publishes r anchor c
  key : r.eventId = "rel:" ++ x.sha256Hex (enc.preimage (candidateInput workspace anchor c))
  fit : (candidateInput workspace anchor c).Fit

/-- The rows of the workspace: relation rows of the three releases, and rows of
other types whose ids are no relation keys. -/
def History (x : Crates) (workspace : WorkspaceScope) (t : RecentEvents) : Prop :=
  ∀ r ∈ t.rows, r.2.workspaceId = workspace.id →
    (∃ anchor c enc, ReleasedAs x workspace r.2 anchor c enc) ∨
    (r.2.eventType ≠ "relation_resolved" ∧ ∀ b, r.2.eventId ≠ "rel:" ++ b)

/-! ## The semantic comparison -/

instance : Std.Total pairLe := ⟨fun a b => by
  unfold pairLe
  rcases lt_trichotomy a.1 b.1 with h | h | h
  · exact Or.inl (Or.inl h)
  · rcases le_total a.2 b.2 with h2 | h2
    · exact Or.inl (Or.inr ⟨h, h2⟩)
    · exact Or.inr (Or.inr ⟨h.symm, h2⟩)
  · exact Or.inr (Or.inl h)⟩

instance : IsTrans (String × String) pairLe := ⟨fun a b c hab hbc => by
  unfold pairLe at *
  rcases hab with h | ⟨h, h2⟩
  · rcases hbc with h' | ⟨h', -⟩
    · exact Or.inl (lt_trans h h')
    · exact Or.inl (h' ▸ h)
  · rcases hbc with h' | ⟨h', h2'⟩
    · exact Or.inl (h ▸ h')
    · exact Or.inr ⟨h.trans h', le_trans h2 h2'⟩⟩

instance : Std.Antisymm pairLe := ⟨fun a b hab hba => by
  unfold pairLe at *
  rcases hab with h | ⟨h, h2⟩
  · rcases hba with h' | ⟨h', -⟩
    · exact absurd h' (lt_asymm h)
    · exact absurd h (h' ▸ lt_irrefl _)
  · rcases hba with h' | ⟨-, h2'⟩
    · exact absurd h' (h ▸ lt_irrefl _)
    · exact Prod.ext h (le_antisymm h2 h2')⟩

theorem stringSet_eq_iff {l l' : List String} : stringSet l = stringSet l' ↔ ∀ s, s ∈ l ↔ s ∈ l' :=
  Canon.canon_eq_iff (· ≤ ·)

/-- A set of one identity is equal to another such set exactly when the identities are. -/
theorem identitySet_singleton {e f : RecentEvent} {k l : IdentityKey} (he : e.relatedIdentities = [k])
    (hf : f.relatedIdentities = [l]) : identitySet e = identitySet f ↔ k = l := by
  rw [identitySet, identitySet, Canon.canon_eq_iff, he, hf]
  simp only [List.map_cons, List.map_nil, List.mem_singleton]
  refine ⟨fun h => ?_, fun h p => ?_⟩
  · have hkl := (h (k.kind.asStr, k.value)).mp rfl
    obtain ⟨hkind, hvalue⟩ := Prod.mk.inj hkl
    cases k; cases l
    simp only [IdentityKey.mk.injEq]
    exact ⟨kind_asStr_injective hkind, hvalue⟩
  · subst h
    exact Iff.rfl

section
variable {x : Crates} {workspace : WorkspaceScope} {anchor : ActorExtraction} {now : DateTime}
  {t t' : RecentEvents} {c d : CandidateRelation}

/-- On a row published for some tuple the comparison decides whether it is the
tuple of the candidate. -/
theorem samePublishedFact_iff {r : RecentEventRow} {a : String} (hr : Publishes r a d) (hcheck : r.Check) :
    samePublishedFact (r.intoEvent false) (relationEvent x workspace anchor now c) = true ↔
      Publishes r anchor.token c := by
  have hset : identitySet (r.intoEvent false) = identitySet (relationEvent x workspace anchor now c) ↔
      d.toIdentity = c.toIdentity := identitySet_singleton hr.target rfl
  have hconf : confidenceFromStr r.confidenceLevel = d.confidence := by
    rw [hr.confidence, confidenceFromStr_asStr]
  have hcore : samePublishedFact (r.intoEvent false) (relationEvent x workspace anchor now c) =
      (r.eventType == "relation_resolved" && r.anchorIdentity == anchor.token &&
        r.chainQualifiedContract == anchor.token && r.relation == some c.relation &&
        confidenceFromStr r.confidenceLevel == c.confidence &&
        identitySet (r.intoEvent false) == identitySet (relationEvent x workspace anchor now c) &&
        stringSet r.evidenceRefs == stringSet c.evidenceRefs) := by
    simp only [samePublishedFact]
    split
    · rename_i h
      rw [Bool.not_eq_true'] at h
      exact h.symm
    · rename_i h
      rw [Bool.not_eq_true', Bool.not_eq_false] at h
      exact h.symm
  rw [hcore]
  simp only [Bool.and_eq_true, beq_iff_eq, hset, stringSet_eq_iff, hconf]
  refine ⟨fun h => ?_, fun h => ?_⟩
  · obtain ⟨⟨⟨⟨⟨⟨ht, ha⟩, -⟩, hrel⟩, hq⟩, hto⟩, hev⟩ := h
    exact ⟨ht, ha, hrel, by rw [hr.target, hto], by rw [hr.confidence, hq], hev⟩
  · have hto : [d.toIdentity] = [c.toIdentity] := hr.target.symm.trans h.target
    have hq : d.confidence = c.confidence := confidence_asStr_injective (hr.confidence.symm.trans h.confidence)
    exact ⟨⟨⟨⟨⟨⟨h.eventType, h.anchor⟩, by rw [← hcheck.anchorInvariant.1, h.anchor]⟩, h.relation⟩, hq⟩,
      List.singleton_inj.mp hto⟩, h.evidence⟩

/-! ## Keys and tuples -/

theorem mem_map_utf8 {l l' : List String} : (∀ b, b ∈ l.map utf8 ↔ b ∈ l'.map utf8) ↔ ∀ s, s ∈ l ↔ s ∈ l' := by
  have hinj : Function.Injective utf8 := fun _ _ => utf8_injective
  constructor
  · intro h s
    rw [← List.mem_map_of_injective hinj, h, List.mem_map_of_injective hinj]
  · intro h b
    simp only [List.mem_map, h]

/-- Two candidates of one anchor have one tuple. -/
def SameTuple (c d : CandidateRelation) : Prop :=
  c.toIdentity = d.toIdentity ∧ c.relation = d.relation ∧ c.confidence = d.confidence ∧
    ∀ e, e ∈ c.evidenceRefs ↔ e ∈ d.evidenceRefs

variable (workspace) in
theorem sameFact_iff {a b : String} :
    (candidateInput workspace a c).SameFact (candidateInput workspace b d) ↔ a = b ∧ SameTuple c d := by
  simp only [RelationKeyInput.SameFact, candidateInput, relationKeyInput, true_and, mem_map_utf8, SameTuple]
  refine ⟨fun h => ?_, fun h => ?_⟩
  · obtain ⟨ha, hr, hv, hk, hq, he⟩ := h
    refine ⟨utf8_injective ha, ?_, relation_asStr_injective (utf8_injective hr), hq, he⟩
    cases c with
    | mk k => cases d with
      | mk l => cases k; cases l; simp only [IdentityKey.mk.injEq]; exact ⟨hk, utf8_injective hv⟩
  · obtain ⟨ha, hto, hr, hq, he⟩ := h
    rw [ha, hto, hr]
    exact ⟨rfl, rfl, rfl, rfl, hq, he⟩

theorem publishes_of_sameTuple {r : RecentEventRow} {a : String} (h : SameTuple c d) (hr : Publishes r a c) :
    Publishes r a d :=
  ⟨hr.eventType, hr.anchor, by rw [hr.relation, h.2.1], by rw [hr.target, h.1], by rw [hr.confidence, h.2.2.1],
    fun e => (hr.evidence e).trans (h.2.2.2 e)⟩

theorem sameTuple_of_publishes {r : RecentEventRow} {a b : String} (hc : Publishes r a c) (hd : Publishes r b d) :
    a = b ∧ SameTuple c d :=
  ⟨hc.anchor.symm.trans hd.anchor, List.singleton_inj.mp (hc.target.symm.trans hd.target),
    Option.some.inj (hc.relation.symm.trans hd.relation),
    confidence_asStr_injective (hc.confidence.symm.trans hd.confidence),
    fun e => (hc.evidence e).symm.trans (hd.evidence e)⟩

theorem preimage_congr {enc : Encoding} {u v : RelationKeyInput} (h : u.SameFact v) :
    enc.preimage u = enc.preimage v := by
  cases enc with
  | current =>
    show relationPreimage u = relationPreimage v
    rw [relationPreimage_eq, relationPreimage_eq, relationPreimageRev065_congr h]
  | rev065 => exact relationPreimageRev065_congr h
  | rev063 => exact relationPreimageRev063_congr h

/-- A row under the current key of a tuple was published for it. -/
theorem sameFact_of_current (hsha : Function.Injective x.sha256Hex) {enc : Encoding} {u v : RelationKeyInput}
    (hu : u.Fit) (hv : v.Fit)
    (h : "rel:" ++ x.sha256Hex (enc.preimage u) = "rel:" ++ x.sha256Hex (relationPreimage v)) : u.SameFact v := by
  have hpre := tagged_injective hsha h
  cases enc with
  | current => exact (relationPreimage_eq_iff hu hv).mp hpre
  | rev065 => exact absurd hpre.symm (relationPreimage_ne_rev065 v u)
  | rev063 => exact absurd hpre.symm (relationPreimage_ne_rev063 v u)

/-- The keys of a candidate find a row exactly when its tuple was published. -/
theorem candidateStored_iff (hsha : Function.Injective x.sha256Hex) (hist : History x workspace t)
    (hfit : (candidateInput workspace anchor.token c).Fit) :
    CandidateStored x workspace anchor now t c ↔ Published workspace t anchor.token c := by
  refine ⟨fun h => ?_, fun h => ?_⟩
  · rcases h with h | h
    · -- a row under a superseded key: the comparison decides
      obtain ⟨r, hr, hw, hkey, hsame⟩ := legacyRow_iff.mp h
      refine ⟨r, hr, hw, ?_⟩
      rcases hist r hr hw with ⟨a, d, enc, hrel⟩ | ⟨-, hno⟩
      · exact (samePublishedFact_iff hrel.publishes (t.checked r hr)).mp hsame
      · simp only [candidateLegacyKeys, legacyRelationEventKeys, List.mem_cons, List.not_mem_nil, or_false] at hkey
        rcases hkey with hkey | hkey
        · exact absurd hkey (hno _)
        · exact absurd hkey (hno _)
    · -- a row under the current key: the key decides
      obtain ⟨r, hr, hkey⟩ := Table.mem_keys.mp h
      obtain ⟨hw, hid⟩ := Prod.mk.inj hkey
      refine ⟨r, hr, hw, ?_⟩
      rcases hist r hr hw with ⟨a, d, enc, hrel⟩ | ⟨-, hno⟩
      · obtain ⟨rfl, htuple⟩ := (sameFact_iff workspace).mp
          (sameFact_of_current hsha hrel.fit hfit (hrel.key.symm.trans hid))
        exact publishes_of_sameTuple htuple hrel.publishes
      · exact absurd hid (hno _)
  · obtain ⟨r, hr, hw, hpub⟩ := h
    rcases hist r hr hw with ⟨a, d, enc, hrel⟩ | ⟨htype, -⟩
    · have hfact := (sameFact_iff workspace).mpr (sameTuple_of_publishes hrel.publishes hpub)
      have hid : r.2.eventId = "rel:" ++ x.sha256Hex (enc.preimage (candidateInput workspace anchor.token c)) := by
        rw [hrel.key, preimage_congr hfact]
      have hlegacy : r.2.eventId ∈ candidateLegacyKeys x workspace anchor c →
          legacyRowPublishesTheSameFact t workspace.id (candidateLegacyKeys x workspace anchor c)
            (relationEvent x workspace anchor now c) = true := fun hmem =>
        legacyRow_iff.mpr ⟨r, hr, hw, hmem, (samePublishedFact_iff hpub (t.checked r hr)).mpr hpub⟩
      cases enc with
      | current => exact Or.inr (Table.mem_keys.mpr ⟨r, hr, Prod.ext hw hid⟩)
      | rev065 => exact Or.inl (hlegacy (hid ▸ List.mem_cons_self))
      | rev063 => exact Or.inl (hlegacy (hid ▸ List.mem_cons_of_mem _ List.mem_cons_self))
    · exact absurd hpub.eventType htype

/-! ## One candidate and a list of them -/

theorem relationRow_publishes (c : CandidateRelation) :
    Publishes (relationRow x workspace anchor now c) anchor.token c :=
  ⟨rfl, rfl, rfl, rfl, rfl, fun _ => Iff.rfl⟩

/-- A row of one candidate is published for no candidate with another key. -/
theorem key_of_publishes_row (h : Publishes (relationRow x workspace anchor now c) anchor.token d) :
    c.key = d.key :=
  let ⟨_, htuple⟩ := sameTuple_of_publishes (relationRow_publishes c) h
  key_eq_iff.mpr ⟨htuple.1, htuple.2.1⟩

theorem key_of_row_eq (h : relationRow x workspace anchor now c = relationRow x workspace anchor now d) :
    c.key = d.key := by
  have hd : Publishes (relationRow x workspace anchor now d) anchor.token d := relationRow_publishes d
  rw [← h] at hd
  exact key_of_publishes_row hd

theorem history_push (hist : History x workspace t) (hfit : (candidateInput workspace anchor.token c).Fit)
    (hrows : t'.rows = t.rows ++ [(t.nextId, relationRow x workspace anchor now c)]) :
    History x workspace t' := by
  intro r hr hw
  rw [hrows] at hr
  rcases List.mem_append.mp hr with hr | hr
  · exact hist r hr hw
  · rw [List.mem_singleton] at hr
    rw [hr]
    exact Or.inl ⟨anchor.token, c, .current, relationRow_publishes c, rfl, hfit⟩

theorem published_push (hrows : t'.rows = t.rows ++ [(t.nextId, relationRow x workspace anchor now c)])
    (hkey : c.key ≠ d.key) :
    Published workspace t' anchor.token d ↔ Published workspace t anchor.token d := by
  unfold Published
  rw [hrows]
  refine ⟨fun h => ?_, fun h => ?_⟩
  · obtain ⟨r, hr, hw, hpub⟩ := h
    rcases List.mem_append.mp hr with hr | hr
    · exact ⟨r, hr, hw, hpub⟩
    · rw [List.mem_singleton] at hr
      rw [hr] at hpub
      exact absurd (key_of_publishes_row hpub) hkey
  · obtain ⟨r, hr, hw, hpub⟩ := h
    exact ⟨r, List.mem_append_left _ hr, hw, hpub⟩

variable (now) in
/-- One candidate adds its row exactly when its tuple was not published, and
publishes no tuple of another key. -/
theorem publishCandidate_published (hsha : Function.Injective x.sha256Hex) (hist : History x workspace t)
    (hfit : (candidateInput workspace anchor.token c).Fit) (o : PipelineOutcome) :
    ∃ t' o' added, publishCandidate x workspace anchor now (t, o) c = .ok (t', o') ∧ t'.rows = t.rows ++ added ∧
      History x workspace t' ∧ (∀ r ∈ added, r.2 = relationRow x workspace anchor now c) ∧
      ((∃ r ∈ added, r.2 = relationRow x workspace anchor now c) ↔ ¬ Published workspace t anchor.token c) ∧
      ∀ d : CandidateRelation, c.key ≠ d.key →
        (Published workspace t' anchor.token d ↔ Published workspace t anchor.token d) := by
  obtain ⟨t', o', hrun, hstep⟩ := publishCandidate_step x workspace anchor now t o c
  rw [candidateStored_iff hsha hist hfit] at hstep
  rcases hstep with ⟨hpub, hrows⟩ | ⟨hpub, hrows⟩
  · have hsame : ∀ d, Published workspace t' anchor.token d ↔ Published workspace t anchor.token d := fun d => by
      rw [Published, hrows, Published]
    refine ⟨t', o', [], hrun, by rw [hrows, List.append_nil], ?_, by simp, by simp [hpub], fun d _ => hsame d⟩
    rw [History, hrows]
    exact hist
  · exact ⟨t', o', _, hrun, hrows, history_push hist hfit hrows, by simp, by simp [hpub],
      fun d hkey => published_push hrows hkey⟩

variable (anchor now) in
/-- Candidates with distinct keys are published independently: each one adds its
row exactly when its tuple was not published before. -/
theorem publishAll_published (hsha : Function.Injective x.sha256Hex) (cs : List CandidateRelation) :
    ∀ (t : RecentEvents) (o : PipelineOutcome), History x workspace t →
    (∀ c ∈ cs, (candidateInput workspace anchor.token c).Fit) → (cs.map CandidateRelation.key).Nodup →
    ∃ t' o' added, publishAll x workspace anchor now (t, o) cs = .ok (t', o') ∧ t'.rows = t.rows ++ added ∧
      History x workspace t' ∧ (∀ r ∈ added, ∃ c ∈ cs, r.2 = relationRow x workspace anchor now c) ∧
      ∀ c ∈ cs, (∃ r ∈ added, r.2 = relationRow x workspace anchor now c) ↔
        ¬ Published workspace t anchor.token c := by
  induction cs with
  | nil => exact fun t o hist _ _ => ⟨t, o, [], rfl, by simp, hist, by simp, by simp⟩
  | cons c cs ih =>
    intro t o hist hfit hnodup
    obtain ⟨hc, hnodup⟩ := List.nodup_cons.mp hnodup
    have hkey : ∀ d ∈ cs, c.key ≠ d.key := fun d hd h => hc (h ▸ List.mem_map_of_mem hd)
    have hrow : ∀ d ∈ cs, relationRow x workspace anchor now c ≠ relationRow x workspace anchor now d :=
      fun d hd h => hkey d hd (key_of_row_eq h)
    obtain ⟨t₁, o₁, own, h₁, hrows₁, hist₁, hown, hiff₁, hothers⟩ := publishCandidate_published now hsha hist
      (hfit c List.mem_cons_self) o
    obtain ⟨t₂, o₂, added, h₂, hrows₂, hist₂, hof, hiff₂⟩ := ih t₁ o₁ hist₁
      (fun d hd => hfit d (List.mem_cons_of_mem _ hd)) hnodup
    refine ⟨t₂, o₂, own ++ added, ?_, by rw [hrows₂, hrows₁, List.append_assoc], hist₂, ?_, ?_⟩
    · rw [publishAll, List.foldlM_cons, h₁]
      exact h₂
    · refine List.forall_mem_append.mpr ⟨fun r hr => ⟨c, List.mem_cons_self, hown r hr⟩, fun r hr => ?_⟩
      obtain ⟨d, hd, hrd⟩ := hof r hr
      exact ⟨d, List.mem_cons_of_mem _ hd, hrd⟩
    · intro d hd
      simp only [List.mem_append, or_and_right, exists_or]
      rcases List.mem_cons.mp hd with rfl | hd
      · -- the candidates after it have other rows
        rw [hiff₁]
        apply or_iff_left
        intro h
        obtain ⟨r, hr, hrc⟩ := h
        obtain ⟨d', hd', hrd⟩ := hof r hr
        exact hrow d' hd' (hrc.symm.trans hrd)
      · -- the candidate before it has another row and publishes another key
        rw [← hothers d (hkey d hd), ← hiff₂ d hd]
        apply or_iff_right
        intro h
        obtain ⟨r, hr, hrd⟩ := h
        exact hrow d hd ((hown r hr).symm.trans hrd)

/-! ## A pass -/

theorem candidates_keys_nodup (x : Crates) (workspace : WorkspaceScope) (p : Pass) :
    ((p.candidates x workspace).map CandidateRelation.key).Nodup := output_keys_nodup

variable (x workspace anchor now) in
/-- The disclosure of a pass is no relation row. -/
theorem coverageRow_no_relation (predecessor : String) :
    (coverageRow x workspace anchor now predecessor).eventType ≠ "relation_resolved" ∧
      ∀ b, (coverageRow x workspace anchor now predecessor).eventId ≠ "rel:" ++ b :=
  ⟨by simp [coverageRow, coverageEvent, RecentEvent.toRow], fun b h => rel_ne_cov b _ h.symm⟩

/-- A pass: what its candidates add, then at most one disclosure. -/
theorem runPass_step (hsha : Function.Injective x.sha256Hex) {p : Pass} (htrig : p.Triggered)
    (hist : History x workspace t)
    (hfit : ∀ c ∈ p.candidates x workspace, (candidateInput workspace p.anchor.token c).Fit) :
    ∃ t' o added coverage, runPass x workspace t p = .ok (t', o) ∧ t'.rows = t.rows ++ (added ++ coverage) ∧
      History x workspace t' ∧
      (∀ r ∈ added, ∃ c ∈ p.candidates x workspace, r.2 = relationRow x workspace p.anchor p.now c) ∧
      (∀ c ∈ p.candidates x workspace, (∃ r ∈ added, r.2 = relationRow x workspace p.anchor p.now c) ↔
        ¬ Published workspace t p.anchor.token c) ∧
      ∀ r ∈ coverage, ∃ predecessor, r.2 = coverageRow x workspace p.anchor p.now predecessor := by
  obtain ⟨t₁, o₁, added, hpub, hrows₁, hist₁, hof, hiff⟩ := publishAll_published p.anchor p.now
    hsha (p.candidates x workspace) t (p.outcome x workspace) hist hfit (candidates_keys_nodup x workspace p)
  obtain ⟨t₂, o₂, hdis, hstep⟩ := disclose_step x workspace p.anchor p.now t₁ o₁
  have hrun : runPass x workspace t p = .ok (t₂, o₂) := by rw [runPass_eq htrig, hpub]; exact hdis
  rcases hstep with ⟨-, -, hrows₂⟩ | ⟨-, hrows₂⟩
  · refine ⟨t₂, o₂, added, _, hrun, by rw [hrows₂, hrows₁, List.append_assoc], ?_, hof, hiff, ?_⟩
    · intro r hr hw
      rw [hrows₂] at hr
      rcases List.mem_append.mp hr with hr | hr
      · exact hist₁ r hr hw
      · rw [List.mem_singleton] at hr
        rw [hr]
        exact Or.inr (coverageRow_no_relation x workspace p.anchor p.now _)
    · intro r hr
      rw [List.mem_singleton] at hr
      exact ⟨_, congrArg Prod.snd hr⟩
  · refine ⟨t₂, o₂, added, [], hrun, by rw [hrows₂, hrows₁, List.append_nil], ?_, hof, hiff, by simp⟩
    unfold History
    rw [hrows₂]
    exact hist₁

variable (workspace t) in
/-- A pass appends a candidate exactly when no stored row of the workspace was
published for its tuple, whichever release wrote the row. -/
theorem runPass_publishes (p : Pass) (hsha : Function.Injective x.sha256Hex) (htrig : p.Triggered)
    (hist : History x workspace t)
    (hfit : ∀ c ∈ p.candidates x workspace, (candidateInput workspace p.anchor.token c).Fit) :
    ∃ t' o added, runPass x workspace t p = .ok (t', o) ∧ t'.rows = t.rows ++ added ∧
      ∀ c ∈ p.candidates x workspace,
        (∃ r ∈ added, r.2.workspaceId = workspace.id ∧ Publishes r.2 p.anchor.token c) ↔
          ¬ ∃ r ∈ t.rows, r.2.workspaceId = workspace.id ∧ Publishes r.2 p.anchor.token c := by
  obtain ⟨t', o, added, coverage, hrun, hrows, -, hof, hiff, hcov⟩ := runPass_step hsha htrig hist hfit
  refine ⟨t', o, added ++ coverage, hrun, hrows, fun c hc => ?_⟩
  rw [show (∃ r ∈ t.rows, _) = Published workspace t p.anchor.token c from rfl, ← hiff c hc]
  refine ⟨fun h => ?_, fun h => ?_⟩
  · obtain ⟨r, hr, -, hpub⟩ := h
    rcases List.mem_append.mp hr with hr | hr
    · obtain ⟨d, hd, hrd⟩ := hof r hr
      have hkey : d.key = c.key := key_of_publishes_row (hrd ▸ hpub)
      have hdc : d = c := List.inj_on_of_nodup_map (candidates_keys_nodup x workspace p) hd hc hkey
      exact ⟨r, hr, hdc ▸ hrd⟩
    · obtain ⟨pre, hpre⟩ := hcov r hr
      exact absurd hpub.eventType (hpre ▸ (coverageRow_no_relation x workspace p.anchor p.now pre).1)
  · obtain ⟨r, hr, hrow⟩ := h
    exact ⟨r, List.mem_append_left _ hr, by rw [hrow]; rfl, hrow ▸ relationRow_publishes c⟩

end

/-- Another token of the anchor's deployer. -/
def deployerRelation (token : String) (confidence : RecentConfidence) (evidence : String) : CandidateRelation :=
  ⟨⟨.token, token⟩, .sameDeployer, confidence, [evidence]⟩

/-- The SHA-256 digests of the keys that the pass below computes: two relations
and a disclosure, each under the three encodings. -/
def twoRelationDigests : List (Bytes × String) :=
  let first := candidateInput sampleWorkspace "solana:AAA" (deployerRelation "solana:BBB" .exact "tx1")
  let second := candidateInput sampleWorkspace "solana:AAA" (deployerRelation "solana:CCC" .exact "tx2")
  let coverage := coverageKeyInput sampleWorkspace "solana:AAA" ["authority", "initial_funder"] 0 ""
  [(relationPreimage first, "3b13a26f088dcca0588a031e1559a81355229edb07126c98550e2b96d7b508f9"),
    (relationPreimageRev065 first, "ae79b7396319ace577656b2809ef659e1db5e700f34f1cff5bd5ded564d8f92d"),
    (relationPreimageRev063 first, "f43b7c8bd4c500c136ffcecae6c93e1a1206b0bbe6cdc828fbeeb7a4a38bfc2c"),
    (relationPreimage second, "5681ec6b190a86571b2d1ead30d5d27df57d0e0472fd7cd30e417272869d26ae"),
    (relationPreimageRev065 second, "dda7c6ccd816301769b4b323a07d43c51e5eb01534ddef8b71ae706cb0c580a4"),
    (relationPreimageRev063 second, "cd2295e04ec92bc5f5198bfc2baccfed9b1aeec01015db6c42d955d599b4ec56"),
    (coveragePreimage coverage, "f873527e813344757357803b85fd3f237e0274c6a36c5e6756ca409b5666c97b"),
    (coveragePreimageRev065 coverage, "b7941e43d45cd7396c04e47b1c276384256c0ea0655ee7a60b1cf8847d1e384a"),
    (coveragePreimageRev063 coverage, "441691edc6082a7f3eba98b694eb13253c673048830e9a004648f5252457d967")]

/-- The row REV-063 wrote for the first of the two relations. -/
def rev063Row : RecentEventRow where
  workspaceId := 7
  eventId := "rel:f43b7c8bd4c500c136ffcecae6c93e1a1206b0bbe6cdc828fbeeb7a4a38bfc2c"
  tokenIdentity := "solana:AAA"
  eventType := "relation_resolved"
  anchorIdentity := "solana:AAA"
  relatedIdentities := [⟨.token, "solana:BBB"⟩]
  chainQualifiedContract := "solana:AAA"
  occurredAt := 0
  observedAt := 0
  relation := some .sameDeployer
  truthStatus := "confirmed"
  confidence := none
  confidenceLevel := "exact"
  evidenceRefs := ["tx1"]
  dependencyGroup := none
  freshness := none
  coverage := "degraded"
  capabilityStatus := "available"
  missingInputs := ["authority"]
  retraction := none

/-- The store REV-063 left behind: that row alone. -/
def rev063Store : RecentEvents := Table.empty.push rev063Row (by decide) ⟨by decide, Or.inr (by decide)⟩

def upgradeCrates : Crates := tableCrates [("1970-01-01T00:00:00Z", 0)] [] twoRelationDigests

/-- A pass that finds two other tokens of the deployer. -/
def twoTokenPass : Pass :=
  ⟨.active, some .migration, sampleAnchor,
    [⟨"solana:BBB", .token⟩, ⟨"solana:CCC", .token⟩],
    [⟨"solana:D", "solana:BBB", .deployedBy, "1970-01-01T00:00:00Z", .confirmed, "1970-01-01T00:00:00Z", none,
        ["tx1"]⟩,
      ⟨"solana:D", "solana:CCC", .deployedBy, "1970-01-01T00:00:00Z", .confirmed, "1970-01-01T00:00:00Z", none,
        ["tx2"]⟩], [], 1000000000⟩

/-- On a store that REV-063 wrote, a pass that resolves the stored relation and a
second one appends the second one only. -/
theorem runPass_publishes_upgrade :
    ∃ t' o added, runPass upgradeCrates sampleWorkspace rev063Store twoTokenPass = .ok (t', o) ∧
      t'.rows = [(1, rev063Row)] ++ added ∧
      (¬ ∃ r ∈ added, r.2.workspaceId = 7 ∧
        Publishes r.2 "solana:AAA" (deployerRelation "solana:BBB" .exact "tx1")) ∧
      ∃ r ∈ added, r.2.workspaceId = 7 ∧
        Publishes r.2 "solana:AAA" (deployerRelation "solana:CCC" .exact "tx2") := by
  have hstored : Publishes rev063Row "solana:AAA" (deployerRelation "solana:BBB" .exact "tx1") :=
    ⟨rfl, rfl, rfl, rfl, rfl, fun _ => Iff.rfl⟩
  obtain ⟨t', o, added, hrun, hrows, hiff⟩ := runPass_publishes (x := upgradeCrates) sampleWorkspace rev063Store
    twoTokenPass (tableCrates_injective (by decide +kernel) (by decide +kernel)) rfl
    (by
      intro r hr _
      rw [List.mem_singleton.mp hr]
      exact Or.inl ⟨_, _, .rev063, hstored, by decide +kernel, by decide +kernel⟩)
    (by decide +kernel)
  refine ⟨t', o, added, hrun, hrows, ?_, ?_⟩
  · intro h
    exact (hiff _ (by decide +kernel)).mp h ⟨(1, rev063Row), List.mem_singleton_self _, rfl, hstored⟩
  · apply (hiff _ (by decide +kernel)).mpr
    intro h
    obtain ⟨r, hr, -, hpub⟩ := h
    rw [List.mem_singleton.mp hr] at hpub
    exact absurd hpub.target (by decide)

end WhaleIntelligence.Recent
