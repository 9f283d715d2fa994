import WhaleIntelligence.Narrative.Confidence

/- Evidence that is added more than once: `add_narrative_evidence`.

   Every call stores a row, and the hash of the claim is stored with it and compared with
   nothing. So a repetition is counted like any other evidence: the classification of a
   token stays the same exactly where the repetitions that are about it come to nothing in
   each narrative (`repetitions_unnoticed_iff`). -/
namespace WhaleIntelligence.Narrative
open WhaleIntelligence HashGroup

/-! ## The store -/

structure NarrativeEvidenceInput where
  chain : ChainKind
  mint : String
  slug : String
  sourceKind : String
  sourceRef : String
  claimType : String
  claimText : String
  polarity : String
  confidence : Int
  deriving DecidableEq, Repr

/-- A row of `narrative_evidence`, with what the classification does not read. -/
structure StoredEvidence extends NarrativeEvidence where
  sourceRef : String
  claimType : String
  claimText : String
  contentHash : String
  deriving DecidableEq, Repr

/-- The table `narratives`. -/
structure Narratives where
  rows : List (Int × String)
  ids : (rows.map Prod.fst).Nodup
  slugs : (rows.map Prod.snd).Nodup

def Narratives.idOf (n : Narratives) (slug : String) : Option Int := (n.rows.find? fun r => r.2 = slug).map Prod.fst

def Narratives.slugOf (n : Narratives) (id : Int) : Option String := (n.rows.find? fun r => r.1 = id).map Prod.snd

section
variable {n : Narratives} {id id' : Int} {slug : String}

theorem mem_of_slugOf (h : n.slugOf id = some slug) : (id, slug) ∈ n.rows := by
  obtain ⟨r, hr, rfl⟩ := Option.map_eq_some_iff.mp h
  obtain rfl : r.1 = id := by simpa using List.find?_some hr
  exact List.mem_of_find?_eq_some hr

theorem mem_of_idOf (h : n.idOf slug = some id) : (id, slug) ∈ n.rows := by
  obtain ⟨r, hr, rfl⟩ := Option.map_eq_some_iff.mp h
  obtain rfl : r.2 = slug := by simpa using List.find?_some hr
  exact List.mem_of_find?_eq_some hr

theorem slugOf_isSome (h : n.idOf slug = some id) : (n.slugOf id).isSome := by
  rw [Narratives.slugOf, Option.isSome_map, List.find?_isSome]
  exact ⟨_, mem_of_idOf h, by simp⟩

theorem slugOf_unique (h : n.slugOf id = some slug) (h' : n.slugOf id' = some slug) : id = id' := by
  have heq : ((id, slug) : Int × String) = (id', slug) :=
    List.inj_on_of_nodup_map n.slugs (mem_of_slugOf h) (mem_of_slugOf h') rfl
  exact congrArg Prod.fst heq

end

structure NarrativeStore where
  narratives : Narratives
  evidence : List StoredEvidence
  linked : ∀ row ∈ evidence, (narratives.slugOf row.narrativeId).isSome

def contentHashOf (sha256Hex : String → String) (sourceKind sourceRef claimType claimText : String) : String :=
  sha256Hex (sourceKind ++ "|" ++ sourceRef ++ "|" ++ claimType ++ "|" ++ claimText)

def storedEvidence (sha256Hex : String → String) (observedAt : DateTime) (narrativeId : Int)
    (evidence : NarrativeEvidenceInput) : StoredEvidence where
  chain := evidence.chain.asStr
  mint := evidence.mint
  narrativeId
  sourceKind := evidence.sourceKind
  polarity := evidence.polarity
  confidence := evidence.confidence
  observedAt
  sourceRef := evidence.sourceRef
  claimType := evidence.claimType
  claimText := evidence.claimText
  contentHash := contentHashOf sha256Hex evidence.sourceKind evidence.sourceRef evidence.claimType evidence.claimText

theorem linked_append {s : NarrativeStore} {slug : String} {row : StoredEvidence}
    (h : s.narratives.idOf slug = some row.narrativeId) :
    ∀ r ∈ s.evidence ++ [row], (s.narratives.slugOf r.narrativeId).isSome := by
  intro r hr
  rw [List.mem_append, List.mem_singleton] at hr
  obtain hr | rfl := hr
  · exact s.linked r hr
  · exact slugOf_isSome h

/-- `none` where there is no narrative of the slug. -/
def addNarrativeEvidence (sha256Hex : String → String) (observedAt : DateTime) (s : NarrativeStore)
    (evidence : NarrativeEvidenceInput) : Option NarrativeStore :=
  match h : s.narratives.idOf evidence.slug with
  | none => none
  | some id =>
    some { s with
      evidence := s.evidence ++ [storedEvidence sha256Hex observedAt id evidence]
      linked := linked_append h }

/-- The store after the calls; one that fails leaves it as it is. -/
def addedAll (sha256Hex : String → String) (s : NarrativeStore) (calls : List (DateTime × NarrativeEvidenceInput)) :
    NarrativeStore :=
  calls.foldl (fun s c => (addNarrativeEvidence sha256Hex c.1 s c.2).getD s) s

def NarrativeStore.rows (s : NarrativeStore) : List NarrativeEvidence :=
  s.evidence.map StoredEvidence.toNarrativeEvidence

/-- The rows of a token that the classification counts. -/
def NarrativeStore.counted (s : NarrativeStore) (chain : ChainKind) (mint : String) (evaluationTime : DateTime) :
    List NarrativeEvidence :=
  s.rows.filter (counts chain.asStr mint evaluationTime)

def NarrativeStore.classified (checks : Bool) (order : Order Int Tally) (s : NarrativeStore) (chain : ChainKind)
    (mint : String) (evaluationTime : DateTime) : Option (List TokenNarrative) :=
  classifyTokenNarratives checks order s.narratives.slugOf s.rows chain.asStr mint evaluationTime

/-- Both stores classify the token alike, up to the order of narratives of one confidence. -/
def SameClassification (checks : Bool) (s s' : NarrativeStore) (chain : ChainKind) (mint : String)
    (evaluationTime : DateTime) : Prop :=
  ∀ order order' : Order Int Tally, ∃ results results',
    s.classified checks order chain mint evaluationTime = some results ∧
      s'.classified checks order' chain mint evaluationTime = some results' ∧ results'.Perm results

/-! ## What evidence comes to -/

/-- The evidence is about the token and for the narrative. -/
def NarrativeEvidenceInput.about (n : Narratives) (chain : ChainKind) (mint : String) (id : Int)
    (e : NarrativeEvidenceInput) : Bool :=
  e.chain = chain && e.mint = mint && n.idOf e.slug = some id

def inputParts (n : Narratives) (chain : ChainKind) (mint : String) (id : Int) (inputs : List NarrativeEvidenceInput) :
    List (Int × Bool) :=
  (inputs.filter fun e => e.about n chain mint id).map fun e => part e.sourceKind e.polarity e.confidence

/-- What is added comes to nothing, and overflows no count where that is checked. -/
structure Unnoticed (checks : Bool) (l added : List (Int × Bool)) : Prop where
  sum : (added.map Prod.fst).sum = 0
  count : 4294967296 ∣ added.length
  onChain : (∃ e ∈ added, e.2 = true) → ∃ e ∈ l, e.2 = true
  present : added ≠ [] → l ≠ []
  fits : checks = true → l.length + added.length < 4294967296

/-- The second list has the calls of the first, and repeats claims of theirs. -/
structure Repetition (calls : List (DateTime × NarrativeEvidenceInput)) (repeated : List NarrativeEvidenceInput)
    (calls' : List (DateTime × NarrativeEvidenceInput)) : Prop where
  perm : (calls'.map Prod.snd).Perm (calls.map Prod.snd ++ repeated)
  claims : ∀ e ∈ repeated, ∃ c ∈ calls, c.2.sourceKind = e.sourceKind ∧ c.2.sourceRef = e.sourceRef ∧
    c.2.claimType = e.claimType ∧ c.2.claimText = e.claimText

/-- What is added leaves the tally, and whether there is one, exactly where it comes to nothing. -/
theorem unnoticed_iff {checks : Bool} {l added : List (Int × Bool)} :
    (tallyParts (l ++ added) = tallyParts l ∧ (l ++ added = [] ↔ l = [])) ∧
        (checks = true → (l ++ added).length < 4294967296) ↔
      Unnoticed checks l added := by
  rw [tallyParts, tallyParts, Tally.mk.injEq, List.map_append, List.sum_append, List.any_append, List.length_append,
    List.append_eq_nil_iff]
  constructor
  · rintro ⟨⟨⟨hsum, hany, hlength⟩, hnil⟩, hfits⟩
    refine ⟨by omega, by omega, fun h => ?_, fun hadded hl => hadded (hnil.mpr hl).2, hfits⟩
    have hadded : added.any Prod.snd = true := List.any_eq_true.mpr h
    rw [hadded, Bool.or_true] at hany
    exact List.any_eq_true.mp hany.symm
  · intro h
    have hcount := h.count
    refine ⟨⟨⟨by rw [h.sum, add_zero], ?_, by omega⟩, fun hnil => hnil.1, fun hl => ⟨hl, ?_⟩⟩, h.fits⟩
    · cases hadded : added.any Prod.snd with
      | false => rw [Bool.or_false]
      | true =>
        have hany : l.any Prod.snd = true := List.any_eq_true.mpr (h.onChain (List.any_eq_true.mp hadded))
        rw [hany]
        rfl
    · by_contra hadded
      exact h.present hadded hl

/-! ## Two classifications -/

section
variable {checks : Bool} {order order' : Order Int Tally} {slugOf : Int → Option String}
  {rows rows' : List NarrativeEvidence} {chain mint : String} {evaluationTime : DateTime}

theorem resultOf_inj (hunique : ∀ i j s, slugOf i = some s → slugOf j = some s → i = j) {e e' : Σ _ : Int, Tally}
    (he : (slugOf e.1).isSome) (he' : (slugOf e'.1).isSome) (h : resultOf slugOf e = resultOf slugOf e') : e = e' := by
  obtain ⟨id, score, onChain, count⟩ := e
  obtain ⟨id', score', onChain', count'⟩ := e'
  obtain ⟨slug, hslug⟩ := Option.isSome_iff_exists.mp he
  obtain ⟨slug', hslug'⟩ := Option.isSome_iff_exists.mp he'
  simp only [resultOf, tokenNarrative, hslug, hslug', Option.getD_some, TokenNarrative.mk.injEq] at h
  obtain ⟨rfl, rfl, -, -, rfl, rfl⟩ := h
  obtain rfl := hunique id id' slug hslug hslug'
  rfl

/-- The results are of the same tallies where each narrative comes to the same. -/
theorem mem_iterate_of_result (hunique : ∀ i j s, slugOf i = some s → slugOf j = some s → i = j)
    (hslug : ∀ row ∈ rows, (slugOf row.narrativeId).isSome) (hslug' : ∀ row ∈ rows', (slugOf row.narrativeId).isSome)
    (h : ∀ r ∈ (order'.iterate (tallied rows')).map (resultOf slugOf),
      r ∈ (order.iterate (tallied rows)).map (resultOf slugOf)) {id : Int} (hid : parts rows' id ≠ []) :
    parts rows id ≠ [] ∧ tallyParts (parts rows' id) = tallyParts (parts rows id) := by
  obtain ⟨row', hrow', hof'⟩ := parts_ne_nil.mp hid
  have hentry' : ⟨id, tallyOf rows' id⟩ ∈ order'.iterate (tallied rows') :=
    mem_iterate_tallied.mpr ⟨⟨row', hrow', hof'⟩, rfl⟩
  obtain ⟨e, he, heq⟩ := List.mem_map.mp (h _ (List.mem_map_of_mem hentry'))
  obtain ⟨⟨row, hrow, hof⟩, htally⟩ := mem_iterate_tallied.mp he
  have hsame := resultOf_inj hunique (hof ▸ hslug row hrow) (hof' ▸ hslug' row' hrow') heq
  rw [hsame] at hof htally
  dsimp only at hof htally
  rw [← tallyOf_eq, ← tallyOf_eq]
  exact ⟨parts_ne_nil.mpr ⟨row, hrow, hof⟩, htally.symm⟩

theorem classify_same_iff (hunique : ∀ i j s, slugOf i = some s → slugOf j = some s → i = j)
    (hslug : ∀ row ∈ rows, (slugOf row.narrativeId).isSome)
    (hslug' : ∀ row ∈ rows', (slugOf row.narrativeId).isSome)
    (hfits : Fits checks (rows.filter (counts chain mint evaluationTime)))
    (hfits' : Fits checks (rows'.filter (counts chain mint evaluationTime))) :
    (∃ results results', classifyTokenNarratives checks order slugOf rows chain mint evaluationTime = some results ∧
        classifyTokenNarratives checks order' slugOf rows' chain mint evaluationTime = some results' ∧
        results'.Perm results) ↔
      ∀ id, tallyParts (parts (rows'.filter (counts chain mint evaluationTime)) id) =
          tallyParts (parts (rows.filter (counts chain mint evaluationTime)) id) ∧
        (parts (rows'.filter (counts chain mint evaluationTime)) id = [] ↔
          parts (rows.filter (counts chain mint evaluationTime)) id = []) := by
  obtain ⟨results, hresults, hperm⟩ := classify_eq order chain mint evaluationTime hslug hfits
  obtain ⟨results', hresults', hperm'⟩ := classify_eq order' chain mint evaluationTime hslug' hfits'
  have hcounted : ∀ row ∈ rows.filter (counts chain mint evaluationTime), (slugOf row.narrativeId).isSome :=
    fun row hrow => hslug row (List.mem_filter.mp hrow).1
  have hcounted' : ∀ row ∈ rows'.filter (counts chain mint evaluationTime), (slugOf row.narrativeId).isSome :=
    fun row hrow => hslug' row (List.mem_filter.mp hrow).1
  constructor
  · rintro ⟨r, r', hr, hr', hsame⟩ id
    obtain rfl : results = r := Option.some.inj (hresults.symm.trans hr)
    obtain rfl : results' = r' := Option.some.inj (hresults'.symm.trans hr')
    have hmaps := (hperm'.symm.trans hsame).trans hperm
    by_cases hid : parts (rows.filter (counts chain mint evaluationTime)) id = []
    · have hid' : parts (rows'.filter (counts chain mint evaluationTime)) id = [] := by
        by_contra hne
        exact (mem_iterate_of_result hunique hcounted hcounted' (fun _ => hmaps.mem_iff.mp) hne).1 hid
      rw [hid, hid']
      exact ⟨rfl, Iff.rfl⟩
    · obtain ⟨hid', htally⟩ := mem_iterate_of_result hunique hcounted' hcounted (fun _ => hmaps.mem_iff.mpr) hid
      exact ⟨htally.symm, iff_of_false hid' hid⟩
  · intro h
    refine ⟨results, results', hresults, hresults', hperm'.trans (List.Perm.trans ?_ hperm.symm)⟩
    apply List.Perm.map
    refine (List.perm_ext_iff_of_nodup (order'.nodupKeys _).nodup (order.nodupKeys _).nodup).mpr fun e => ?_
    obtain ⟨htally, hnil⟩ := h e.1
    rw [mem_iterate_tallied, mem_iterate_tallied, tallyOf_eq, tallyOf_eq, htally, ← parts_ne_nil, ← parts_ne_nil]
    exact and_congr_left' (not_congr hnil)

end

/-! ## The calls -/

section
variable {sha256Hex : String → String} {s : NarrativeStore} {calls : List (DateTime × NarrativeEvidenceInput)}
  {chain : ChainKind} {mint : String} {evaluationTime : DateTime}

theorem addNarrativeEvidence_narratives (c : DateTime × NarrativeEvidenceInput) :
    ((addNarrativeEvidence sha256Hex c.1 s c.2).getD s).narratives = s.narratives := by
  unfold addNarrativeEvidence
  split <;> rfl

theorem addedAll_narratives (s : NarrativeStore) (calls : List (DateTime × NarrativeEvidenceInput)) :
    (addedAll sha256Hex s calls).narratives = s.narratives := by
  induction calls generalizing s with
  | nil => rfl
  | cons c calls ih => exact (ih _).trans (addNarrativeEvidence_narratives c)

theorem asStr_inj {c c' : ChainKind} : c.asStr = c'.asStr ↔ c = c' := by
  refine ⟨fun h => ?_, fun h => h ▸ rfl⟩
  have hparse := ChainKind.parse_asStr c
  rw [h, ChainKind.parse_asStr] at hparse
  exact (Option.some.inj hparse).symm

theorem inputParts_append (n : Narratives) (id : Int) (l l' : List NarrativeEvidenceInput) :
    inputParts n chain mint id (l ++ l') = inputParts n chain mint id l ++ inputParts n chain mint id l' := by
  rw [inputParts, List.filter_append, List.map_append]
  rfl

/-- The row of a piece of evidence comes to what the evidence does. -/
theorem parts_stored {n : Narratives} {c : DateTime × NarrativeEvidenceInput} {id' : Int}
    (hc : c.1 ≤ evaluationTime) (hid : n.idOf c.2.slug = some id') (id : Int) :
    parts (List.filter (counts chain.asStr mint evaluationTime)
        [(storedEvidence sha256Hex c.1 id' c.2).toNarrativeEvidence]) id =
      inputParts n chain mint id [c.2] := by
  have hrow : (counts chain.asStr mint evaluationTime (storedEvidence sha256Hex c.1 id' c.2).toNarrativeEvidence &&
      decide (id' = id)) = c.2.about n chain mint id := by
    show ((decide (c.2.chain.asStr = chain.asStr) && decide (c.2.mint = mint) && decide (c.1 ≤ evaluationTime)) &&
      decide (id' = id)) = _
    rw [NarrativeEvidenceInput.about, hid, Bool.eq_iff_iff]
    simp [asStr_inj, hc]
  rw [parts, List.filter_filter, List.filter_singleton, inputParts, List.filter_singleton, ← hrow, Bool.and_comm]
  show List.map _ (bif _ && decide (id' = id) then _ else _) = _
  cases counts chain.asStr mint evaluationTime (storedEvidence sha256Hex c.1 id' c.2).toNarrativeEvidence &&
      decide (id' = id) with
  | true => rfl
  | false => rfl

/-- A call adds its evidence to what there is of the narrative. -/
theorem parts_addNarrativeEvidence {c : DateTime × NarrativeEvidenceInput} (hc : c.1 ≤ evaluationTime) (id : Int) :
    parts (((addNarrativeEvidence sha256Hex c.1 s c.2).getD s).counted chain mint evaluationTime) id =
      parts (s.counted chain mint evaluationTime) id ++ inputParts s.narratives chain mint id [c.2] := by
  unfold addNarrativeEvidence
  split
  · rename_i hid
    simp [inputParts, NarrativeEvidenceInput.about, hid]
  · rename_i id' hid
    have hrows : (s.evidence ++ [storedEvidence sha256Hex c.1 id' c.2]).map StoredEvidence.toNarrativeEvidence =
        s.rows ++ [(storedEvidence sha256Hex c.1 id' c.2).toNarrativeEvidence] := List.map_append ..
    show parts (((s.evidence ++ [storedEvidence sha256Hex c.1 id' c.2]).map _).filter _) id = _
    rw [hrows, List.filter_append, parts_append, parts_stored hc hid]
    rfl

theorem parts_addedAll (hcalls : ∀ c ∈ calls, c.1 ≤ evaluationTime) (id : Int) :
    parts ((addedAll sha256Hex s calls).counted chain mint evaluationTime) id =
      parts (s.counted chain mint evaluationTime) id ++ inputParts s.narratives chain mint id (calls.map Prod.snd) := by
  induction calls generalizing s with
  | nil => simp [addedAll, inputParts]
  | cons c calls ih =>
    obtain ⟨hc, hcalls⟩ := List.forall_mem_cons.mp hcalls
    have hrest := ih (s := (addNarrativeEvidence sha256Hex c.1 s c.2).getD s) hcalls
    rw [parts_addNarrativeEvidence hc, addNarrativeEvidence_narratives, List.append_assoc, ← inputParts_append] at hrest
    exact hrest

theorem rows_linked (s : NarrativeStore) : ∀ row ∈ s.rows, (s.narratives.slugOf row.narrativeId).isSome := by
  intro row hrow
  obtain ⟨stored, hstored, rfl⟩ := List.mem_map.mp hrow
  exact s.linked stored hstored

/-- Where claims are repeated, a token is classified as without the repetitions exactly where those come to nothing
in each narrative. -/
theorem repetitions_unnoticed_iff (checks : Bool) (sha256Hex : String → String) (s : NarrativeStore)
    (calls calls' : List (DateTime × NarrativeEvidenceInput)) (repeated : List NarrativeEvidenceInput)
    (h : Repetition calls repeated calls') (chain : ChainKind) (mint : String) (evaluationTime : DateTime)
    (hcalls : ∀ c ∈ calls, c.1 ≤ evaluationTime) (hcalls' : ∀ c ∈ calls', c.1 ≤ evaluationTime) :
    SameClassification checks (addedAll sha256Hex s calls) (addedAll sha256Hex s calls') chain mint evaluationTime ↔
      ∀ id, Unnoticed checks
        (parts (s.counted chain mint evaluationTime) id ++ inputParts s.narratives chain mint id (calls.map Prod.snd))
        (inputParts s.narratives chain mint id repeated) := by
  have hparts : ∀ id, parts ((addedAll sha256Hex s calls').counted chain mint evaluationTime) id |>.Perm
      (parts ((addedAll sha256Hex s calls).counted chain mint evaluationTime) id ++
        inputParts s.narratives chain mint id repeated) := by
    intro id
    rw [parts_addedAll hcalls, parts_addedAll hcalls', List.append_assoc, ← inputParts_append]
    exact ((h.perm.filter _).map _).append_left _
  have hlinked := rows_linked (addedAll sha256Hex s calls)
  have hlinked' := rows_linked (addedAll sha256Hex s calls')
  rw [addedAll_narratives] at hlinked hlinked'
  -- the second store has what the first has, so a count that overflows in the first does in the second
  have hfits : Fits checks ((addedAll sha256Hex s calls').counted chain mint evaluationTime) →
      Fits checks ((addedAll sha256Hex s calls).counted chain mint evaluationTime) := by
    intro hfits' hc id
    have hall := hfits' hc id
    rw [(hparts id).length_eq, List.length_append] at hall
    omega
  have heach : (∀ id, Unnoticed checks (parts (s.counted chain mint evaluationTime) id ++
      inputParts s.narratives chain mint id (calls.map Prod.snd)) (inputParts s.narratives chain mint id repeated)) ↔
      (∀ id, tallyParts (parts ((addedAll sha256Hex s calls').counted chain mint evaluationTime) id) =
          tallyParts (parts ((addedAll sha256Hex s calls).counted chain mint evaluationTime) id) ∧
        (parts ((addedAll sha256Hex s calls').counted chain mint evaluationTime) id = [] ↔
          parts ((addedAll sha256Hex s calls).counted chain mint evaluationTime) id = [])) ∧
        Fits checks ((addedAll sha256Hex s calls').counted chain mint evaluationTime) := by
    rw [Fits, forall_comm (α := checks = true), ← forall_and]
    refine forall_congr' fun id => ?_
    have hnil : parts ((addedAll sha256Hex s calls').counted chain mint evaluationTime) id = [] ↔
        parts ((addedAll sha256Hex s calls).counted chain mint evaluationTime) id ++
          inputParts s.narratives chain mint id repeated = [] := by
      rw [← List.length_eq_zero_iff, (hparts id).length_eq, List.length_eq_zero_iff]
    rw [← unnoticed_iff, ← @parts_addedAll sha256Hex s calls chain mint evaluationTime hcalls id,
      tallyParts_perm (hparts id), hnil, (hparts id).length_eq]
  rw [heach, SameClassification]
  simp only [NarrativeStore.classified]
  rw [addedAll_narratives, addedAll_narratives]
  constructor
  · intro hsame
    obtain ⟨_, _, _, hends', _⟩ := hsame (Order.stored _ _) (Order.stored _ _)
    have hfits' := fits_of_classify hends'
    exact ⟨(classify_same_iff (fun _ _ _ => slugOf_unique) hlinked hlinked' (hfits hfits') hfits').mp
      (hsame (Order.stored _ _) (Order.stored _ _)), hfits'⟩
  · rintro ⟨hsame, hfits'⟩ order order'
    exact (classify_same_iff (fun _ _ _ => slugOf_unique) hlinked hlinked' (hfits hfits') hfits').mpr hsame

end

/-! ## A claim that is stored twice -/

def memeStore : NarrativeStore where
  narratives := ⟨[(1, "meme")], by simp, by simp⟩
  evidence := []
  linked := by simp

def memeClaim (mint : String) : NarrativeEvidenceInput where
  chain := .solana
  mint
  slug := "meme"
  sourceKind := "gmgn"
  sourceRef := "ref"
  claimType := "hint"
  claimText := "a dog"
  polarity := "supporting"
  confidence := 40

/-- The digest of the claim. -/
def claimDigest (text : String) : String :=
  if text = "gmgn|ref|hint|a dog" then "6a4c7898f4b14060e66b0af411c101ad9328e05f3f71bf4e3d647ada4e824e7b" else text

/-- The claim is repeated about another token. -/
theorem other_token_unnoticed :
    SameClassification true (addedAll claimDigest memeStore [(0, memeClaim "dog")])
        (addedAll claimDigest memeStore [(0, memeClaim "dog"), (1, memeClaim "cat")]) .solana "dog" 2 ↔
      ∀ id, Unnoticed true
        (parts (memeStore.counted .solana "dog" 2) id ++
          inputParts memeStore.narratives .solana "dog" id [memeClaim "dog"])
        (inputParts memeStore.narratives .solana "dog" id [memeClaim "cat"]) :=
  repetitions_unnoticed_iff true claimDigest memeStore [(0, memeClaim "dog")]
    [(0, memeClaim "dog"), (1, memeClaim "cat")] [memeClaim "cat"]
    ⟨List.Perm.refl _, by simp [memeClaim]⟩ .solana "dog" 2 (by simp) (by simp)

theorem claim_counted_twice :
    Repetition [(0, memeClaim "dog")] [memeClaim "dog"] [(0, memeClaim "dog"), (1, memeClaim "dog")] ∧
    ¬SameClassification true (addedAll claimDigest memeStore [(0, memeClaim "dog")])
      (addedAll claimDigest memeStore [(0, memeClaim "dog"), (1, memeClaim "dog")]) .solana "dog" 2 := by
  refine ⟨⟨List.Perm.refl _, by simp⟩, fun h => ?_⟩
  have honce : (addedAll claimDigest memeStore [(0, memeClaim "dog")]).classified true (Order.stored Int Tally) .solana
      "dog" 2 = some [⟨"meme", 40, 40, "candidate", 1, false⟩] := by decide +kernel
  have htwice : (addedAll claimDigest memeStore [(0, memeClaim "dog"), (1, memeClaim "dog")]).classified
      true (Order.stored Int Tally) .solana "dog" 2 = some [⟨"meme", 80, 40, "candidate", 2, false⟩] := by
    decide +kernel
  obtain ⟨results, results', hresults, hresults', hperm⟩ := h (Order.stored Int Tally) (Order.stored Int Tally)
  rw [honce] at hresults
  rw [htwice] at hresults'
  rw [← Option.some.inj hresults, ← Option.some.inj hresults', List.singleton_perm_singleton] at hperm
  exact absurd hperm (by decide)

end WhaleIntelligence.Narrative
