import WhaleIntelligence.Recent.Model

/- The event keys of relations and of coverage disclosures.

   A key is a tag and the digest of a preimage. The preimage of the current
   release frames every field behind a version field. Two earlier encodings are
   frozen: REV-065 framed the same fields without a version, and REV-063 joined
   them with `|`. The preimages take the argument tuple as bytes, since a hasher
   absorbs bytes; the key functions take the strings of the source.

   `relationPreimage_eq_iff` and `coveragePreimage_eq_iff`: the framed preimages
   decode to one tuple, the set field up to order and multiplicity. The first
   bytes of the current preimages are those of no frozen one. -/
namespace WhaleIntelligence.Recent
open WhaleIntelligence Framing

/-- A workspace bound from a job context: a positive id. -/
structure WorkspaceScope where
  id : Int64
  positive : 0 < id

def WorkspaceScope.fromJobContext (workspaceId : Int64) : Except String WorkspaceScope :=
  if h : 0 < workspaceId then .ok ⟨workspaceId, h⟩
  else .error ("workspace id must be positive; got " ++ toString workspaceId.toInt)

theorem WorkspaceScope.ext {a b : WorkspaceScope} (h : a.id = b.id) : a = b := by
  cases a; cases b; cases h; rfl

/-! ## Relation keys -/

/-- The arguments of a relation key, as bytes. -/
structure RelationKeyInput where
  workspace : WorkspaceScope
  anchor : Bytes
  relation : Bytes
  target : Bytes
  targetKind : IdentityKind
  confidence : RecentConfidence
  evidenceRefs : List Bytes

def relationKeyVersion : UInt32 := 2

/-- What `relation_event_key` hashes. -/
def relationPreimage (t : RelationKeyInput) : Bytes :=
  frame (u32LeBytes relationKeyVersion) ++ (frame (i64LeBytes t.workspace.id) ++ (frame t.anchor ++
    (frame t.relation ++ (frame t.target ++ (frame (utf8 t.targetKind.asStr) ++
      (frame (utf8 t.confidence.asStr) ++ frame (setBytes t.evidenceRefs)))))))

/-- REV-065, frozen: framed, without a version field. -/
def relationPreimageRev065 (t : RelationKeyInput) : Bytes :=
  frame (i64LeBytes t.workspace.id) ++ (frame t.anchor ++ (frame t.relation ++ (frame t.target ++
    (frame (utf8 t.targetKind.asStr) ++ (frame (utf8 t.confidence.asStr) ++
      frame (setBytes t.evidenceRefs))))))

/-- The delimiter `|`. -/
def bar : UInt8 := 124

/-- REV-063, frozen: joined with `|`, and so ambiguous. -/
def relationPreimageRev063 (t : RelationKeyInput) : Bytes :=
  i64LeBytes t.workspace.id ++ bar :: (t.anchor ++ bar :: (t.relation ++ bar :: (t.target ++ bar ::
    (utf8 t.targetKind.asStr ++ bar :: (utf8 t.confidence.asStr ++ bar :: setBytes t.evidenceRefs)))))

section
variable (x : Crates) (workspace : WorkspaceScope) (anchor relation target : String)
  (targetKind : IdentityKind) (confidence : RecentConfidence) (evidenceRefs : List String)

def relationKeyInput : RelationKeyInput :=
  ⟨workspace, utf8 anchor, utf8 relation, utf8 target, targetKind, confidence, evidenceRefs.map utf8⟩

def relationEventKey : String :=
  "rel:" ++ x.sha256Hex (relationPreimage
    (relationKeyInput workspace anchor relation target targetKind confidence evidenceRefs))

def relationEventKeyRev065 : String :=
  "rel:" ++ x.sha256Hex (relationPreimageRev065
    (relationKeyInput workspace anchor relation target targetKind confidence evidenceRefs))

def relationEventKeyRev063 : String :=
  "rel:" ++ x.sha256Hex (relationPreimageRev063
    (relationKeyInput workspace anchor relation target targetKind confidence evidenceRefs))

/-- The keys of the same tuple under the superseded encodings, newest first. -/
def legacyRelationEventKeys : List String :=
  [relationEventKeyRev065 x workspace anchor relation target targetKind confidence evidenceRefs,
    relationEventKeyRev063 x workspace anchor relation target targetKind confidence evidenceRefs]

end

/-! ## Coverage keys -/

/-- How often an unchanged coverage gap is disclosed again. -/
def coverageRefreshSeconds : Int := 6 * 60 * 60

/-- The arguments of a coverage key, as bytes. -/
structure CoverageKeyInput where
  workspace : WorkspaceScope
  anchor : Bytes
  missingInputs : List Bytes
  refreshBucket : Int64
  predecessor : Bytes

def coverageKeyVersion : UInt32 := 2

/-- What `coverage_event_key` hashes. -/
def coveragePreimage (t : CoverageKeyInput) : Bytes :=
  frame (u32LeBytes coverageKeyVersion) ++ (frame (i64LeBytes t.workspace.id) ++ (frame t.anchor ++
    (frame (setBytes t.missingInputs) ++ (frame (i64LeBytes t.refreshBucket) ++ frame t.predecessor))))

/-- REV-065, frozen: framed, without a version field. -/
def coveragePreimageRev065 (t : CoverageKeyInput) : Bytes :=
  frame (i64LeBytes t.workspace.id) ++ (frame t.anchor ++ (frame (setBytes t.missingInputs) ++
    (frame (i64LeBytes t.refreshBucket) ++ frame t.predecessor)))

/-- REV-063, frozen: joined with `|`. -/
def coveragePreimageRev063 (t : CoverageKeyInput) : Bytes :=
  i64LeBytes t.workspace.id ++ bar :: (t.anchor ++ bar :: (setBytes t.missingInputs ++ bar ::
    (i64LeBytes t.refreshBucket ++ bar :: t.predecessor)))

section
variable (x : Crates) (workspace : WorkspaceScope) (anchor : String) (missingInputs : List String)
  (refreshBucket : Int64) (predecessor : String)

def coverageKeyInput : CoverageKeyInput :=
  ⟨workspace, utf8 anchor, missingInputs.map utf8, refreshBucket, utf8 predecessor⟩

def coverageEventKey : String :=
  "cov:" ++ x.sha256Hex (coveragePreimage
    (coverageKeyInput workspace anchor missingInputs refreshBucket predecessor))

def coverageEventKeyRev065 : String :=
  "cov:" ++ x.sha256Hex (coveragePreimageRev065
    (coverageKeyInput workspace anchor missingInputs refreshBucket predecessor))

def coverageEventKeyRev063 : String :=
  "cov:" ++ x.sha256Hex (coveragePreimageRev063
    (coverageKeyInput workspace anchor missingInputs refreshBucket predecessor))

def legacyCoverageEventKeys : List String :=
  [coverageEventKeyRev065 x workspace anchor missingInputs refreshBucket predecessor,
    coverageEventKeyRev063 x workspace anchor missingInputs refreshBucket predecessor]

end

/-! ## Fields of fixed width -/

@[simp] theorem i64LeBytes_length (n : Int64) : (i64LeBytes n).length = 8 := leBytes_length 8 _

theorem fits_i64 (n : Int64) : Fits (i64LeBytes n) := by rw [Fits, i64LeBytes_length]; decide

theorem fits_kind (k : IdentityKind) : Fits (utf8 k.asStr) := by cases k <;> decide

theorem fits_confidence (c : RecentConfidence) : Fits (utf8 c.asStr) := by cases c <;> decide

theorem workspace_of_bytes {a b : WorkspaceScope} (h : i64LeBytes a.id = i64LeBytes b.id) : a = b :=
  WorkspaceScope.ext (i64LeBytes_injective h)

/-! ## One preimage, one tuple -/

instance (l : List Bytes) : Decidable (AllFit l) := inferInstanceAs (Decidable (∀ b ∈ l, Fits b))

/-- Every text of the tuple has a 64-bit length. -/
def RelationKeyInput.Fit (t : RelationKeyInput) : Prop :=
  Fits t.anchor ∧ Fits t.relation ∧ Fits t.target ∧ AllFit t.evidenceRefs

instance (t : RelationKeyInput) : Decidable t.Fit := inferInstanceAs (Decidable (_ ∧ _ ∧ _ ∧ _))

/-- The tuples agree, the evidence as a set. -/
def RelationKeyInput.SameFact (t u : RelationKeyInput) : Prop :=
  t.workspace = u.workspace ∧ t.anchor = u.anchor ∧ t.relation = u.relation ∧ t.target = u.target ∧
    t.targetKind = u.targetKind ∧ t.confidence = u.confidence ∧ ∀ b, b ∈ t.evidenceRefs ↔ b ∈ u.evidenceRefs

def CoverageKeyInput.Fit (t : CoverageKeyInput) : Prop :=
  Fits t.anchor ∧ AllFit t.missingInputs ∧ Fits t.predecessor

instance (t : CoverageKeyInput) : Decidable t.Fit := inferInstanceAs (Decidable (_ ∧ _ ∧ _))

/-- The tuples agree, the missing inputs as a set. -/
def CoverageKeyInput.SameState (t u : CoverageKeyInput) : Prop :=
  t.workspace = u.workspace ∧ t.anchor = u.anchor ∧ (∀ b, b ∈ t.missingInputs ↔ b ∈ u.missingInputs) ∧
    t.refreshBucket = u.refreshBucket ∧ t.predecessor = u.predecessor

theorem relationPreimage_eq (t : RelationKeyInput) :
    relationPreimage t = frame (u32LeBytes relationKeyVersion) ++ relationPreimageRev065 t := rfl

theorem coveragePreimage_eq (t : CoverageKeyInput) :
    coveragePreimage t = frame (u32LeBytes coverageKeyVersion) ++ coveragePreimageRev065 t := rfl

theorem relationPreimageRev065_congr {t u : RelationKeyInput} (h : t.SameFact u) :
    relationPreimageRev065 t = relationPreimageRev065 u := by
  obtain ⟨hw, ha, hr, htg, hk, hc, hs⟩ := h
  rw [relationPreimageRev065, relationPreimageRev065, hw, ha, hr, htg, hk, hc, setBytes_congr hs]

theorem relationPreimageRev063_congr {t u : RelationKeyInput} (h : t.SameFact u) :
    relationPreimageRev063 t = relationPreimageRev063 u := by
  obtain ⟨hw, ha, hr, htg, hk, hc, hs⟩ := h
  rw [relationPreimageRev063, relationPreimageRev063, hw, ha, hr, htg, hk, hc, setBytes_congr hs]

/-- The framed fields decode to one tuple. -/
theorem relationPreimageRev065_eq_iff {t u : RelationKeyInput} (ht : t.Fit) (hu : u.Fit) :
    relationPreimageRev065 t = relationPreimageRev065 u ↔ t.SameFact u := by
  refine ⟨fun h => ?_, relationPreimageRev065_congr⟩
  obtain ⟨hta, htr, htt, hte⟩ := ht
  obtain ⟨hua, hur, hut, hue⟩ := hu
  unfold relationPreimageRev065 at h
  obtain ⟨hw, h⟩ := frame_append_inj (fits_i64 _) (fits_i64 _) h
  obtain ⟨ha, h⟩ := frame_append_inj hta hua h
  obtain ⟨hr, h⟩ := frame_append_inj htr hur h
  obtain ⟨htg, h⟩ := frame_append_inj htt hut h
  obtain ⟨hk, h⟩ := frame_append_inj (fits_kind _) (fits_kind _) h
  obtain ⟨hc, h⟩ := frame_append_inj (fits_confidence _) (fits_confidence _) h
  exact ⟨workspace_of_bytes hw, ha, hr, htg, kind_asStr_injective (utf8_injective hk),
    confidence_asStr_injective (utf8_injective hc), (setBytes_eq_iff hte hue).mp (frame_injective h)⟩

theorem relationPreimage_eq_iff {t u : RelationKeyInput} (ht : t.Fit) (hu : u.Fit) :
    relationPreimage t = relationPreimage u ↔ t.SameFact u := by
  rw [relationPreimage_eq, relationPreimage_eq, List.append_cancel_left_eq, relationPreimageRev065_eq_iff ht hu]

theorem coveragePreimage_eq_iff {t u : CoverageKeyInput} (ht : t.Fit) (hu : u.Fit) :
    coveragePreimage t = coveragePreimage u ↔ t.SameState u := by
  obtain ⟨hta, htm, htp⟩ := ht
  obtain ⟨hua, hum, hup⟩ := hu
  rw [coveragePreimage_eq, coveragePreimage_eq, List.append_cancel_left_eq, coveragePreimageRev065,
    coveragePreimageRev065]
  refine ⟨fun h => ?_, fun h => ?_⟩
  · obtain ⟨hw, h⟩ := frame_append_inj (fits_i64 _) (fits_i64 _) h
    obtain ⟨ha, h⟩ := frame_append_inj hta hua h
    -- the set field has no bound of its own: the bounded predecessor closes the message
    obtain ⟨hs, hb, hp⟩ := frame_pair_inj (by simp) htp hup h
    exact ⟨workspace_of_bytes hw, ha, (setBytes_eq_iff htm hum).mp hs,
      i64LeBytes_injective (frame_injective hb), hp⟩
  · obtain ⟨hw, ha, hs, hb, hp⟩ := h
    rw [hw, ha, setBytes_congr hs, hb, hp]

/-- With small set fields the predecessor is read back whatever its length. -/
theorem coveragePreimage_predecessor {w : WorkspaceScope} {a p q : Bytes} {m n : List Bytes} {b c : Int64}
    (hm : Fits (setBytes m)) (hn : Fits (setBytes n))
    (h : coveragePreimage ⟨w, a, m, b, p⟩ = coveragePreimage ⟨w, a, n, c, q⟩) : p = q := by
  have h1 := List.append_cancel_left (List.append_cancel_left (List.append_cancel_left h))
  obtain ⟨-, h2⟩ := frame_append_inj hm hn h1
  obtain ⟨-, h3⟩ := frame_append_inj (fits_i64 _) (fits_i64 _) h2
  exact frame_injective h3

/-! ## The encodings are apart -/

theorem frame_getElem?_zero (b rest : Bytes) : (frame b ++ rest)[0]? = some (UInt8.ofNat b.length) := rfl

/-- A versioned preimage starts with the length of its version, an unversioned
one with the length of its workspace. -/
theorem versioned_ne_unversioned (v : UInt32) (n : Int64) (x y : Bytes) :
    frame (u32LeBytes v) ++ x ≠ frame (i64LeBytes n) ++ y := by
  intro h
  have hfirst : (frame (u32LeBytes v) ++ x)[0]? = (frame (i64LeBytes n) ++ y)[0]? := by rw [h]
  rw [frame_getElem?_zero, frame_getElem?_zero, i64LeBytes_length, u32LeBytes, leBytes_length] at hfirst
  exact absurd hfirst (by decide)

/-- Behind eight bytes a versioned preimage has its version, a joined one the delimiter. -/
theorem versioned_ne_joined (n : Int64) (x y : Bytes) :
    frame (u32LeBytes 2) ++ x ≠ i64LeBytes n ++ bar :: y := by
  intro h
  have hversion : (frame (u32LeBytes 2) ++ x)[8]? = some 2 := rfl
  have hbar : (i64LeBytes n ++ bar :: y)[8]? = some bar := by
    rw [List.getElem?_append_right (by simp), i64LeBytes_length]
    rfl
  rw [h, hbar] at hversion
  exact absurd hversion (by decide)

theorem relationPreimage_ne_rev065 (t u : RelationKeyInput) :
    relationPreimage t ≠ relationPreimageRev065 u := versioned_ne_unversioned _ _ _ _

theorem relationPreimage_ne_rev063 (t u : RelationKeyInput) :
    relationPreimage t ≠ relationPreimageRev063 u := versioned_ne_joined _ _ _

theorem coveragePreimage_ne_rev065 (t u : CoverageKeyInput) :
    coveragePreimage t ≠ coveragePreimageRev065 u := versioned_ne_unversioned _ _ _ _

theorem coveragePreimage_ne_rev063 (t u : CoverageKeyInput) :
    coveragePreimage t ≠ coveragePreimageRev063 u := versioned_ne_joined _ _ _

/-! ## Tags -/

theorem tagged_injective {x : Crates} (hsha : Function.Injective x.sha256Hex) {tag : String} {a b : Bytes}
    (h : tag ++ x.sha256Hex a = tag ++ x.sha256Hex b) : a = b :=
  hsha (String.append_right_inj tag |>.mp h)

theorem rel_ne_cov (a b : String) : "rel:" ++ a ≠ "cov:" ++ b := by
  intro h
  have hl := congrArg (fun s => s.toList.head?) h
  simp only [String.toList_append] at hl
  exact absurd hl (by simp)

/-- The current preimages decode to one tuple up to the set field, and they are
apart from those of REV-065. -/
theorem eventKey_preimages_injective :
    (∀ t u : RelationKeyInput, t.Fit → u.Fit → (relationPreimage t = relationPreimage u ↔ t.SameFact u)) ∧
    (∀ t u : CoverageKeyInput, t.Fit → u.Fit → (coveragePreimage t = coveragePreimage u ↔ t.SameState u)) ∧
    (∀ t u : RelationKeyInput, relationPreimage t ≠ relationPreimageRev065 u) ∧
    ∀ t u : CoverageKeyInput, coveragePreimage t ≠ coveragePreimageRev065 u :=
  ⟨fun _ _ => relationPreimage_eq_iff, fun _ _ => coveragePreimage_eq_iff, relationPreimage_ne_rev065,
    coveragePreimage_ne_rev065⟩

/-- The two relations that REV-063 joined into one byte string keep two preimages,
and a coverage state keeps one under a reordered, repeated set. -/
theorem eventKey_preimages_injective_bars :
    relationPreimage (relationKeyInput ⟨1, by decide⟩ "A|r|B" "r" "C" .token .exact []) ≠
      relationPreimage (relationKeyInput ⟨1, by decide⟩ "A" "r" "B|r|C" .token .exact []) ∧
    coveragePreimage (coverageKeyInput ⟨1, by decide⟩ "A" ["authority", "deployer"] 3 "cov:0") =
      coveragePreimage (coverageKeyInput ⟨1, by decide⟩ "A" ["deployer", "authority", "deployer"] 3 "cov:0") := by
  refine ⟨fun h => ?_, ?_⟩
  · obtain ⟨-, ha, -⟩ := (eventKey_preimages_injective.1 _ _ (by decide) (by decide)).mp h
    exact absurd ha (by decide)
  · refine (eventKey_preimages_injective.2.1 _ _ (by decide) (by decide)).mpr ⟨rfl, rfl, ?_, rfl, rfl⟩
    intro b
    simp only [coverageKeyInput, List.map_cons, List.map_nil, List.mem_cons, List.not_mem_nil]
    tauto

end WhaleIntelligence.Recent
