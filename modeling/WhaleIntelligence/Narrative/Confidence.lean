import Mathlib.Algebra.BigOperators.Group.List.Basic
import Mathlib.Algebra.Order.Floor.Ring
import Mathlib.Data.Rat.Floor
import WhaleIntelligence.Lib.HashGroup
import WhaleIntelligence.Models

/- `classify_token_narratives`: what the evidence makes of each narrative of a token.

   A tally of each narrative is kept over the rows that were observed by then. The cap
   on a narrative without evidence on the chain is lifted by any row of that source,
   whatever its polarity: a row that contradicts the narrative confirms it
   (`contradiction_confirms`). The tallies add up, so the order of the rows does not
   matter (`tallyOf_perm`). Their counts are `u32`s, whose overflow is a panic in a build
   that checks (`tallies_eq_some`).

   A table has fewer than `2^64` rows and a confidence is an `i32`, so the sum is
   within the 96 bits of a decimal, and it is exact here. So is the average: divided by
   less than `2^32` rows it is no nearer to an integer than 28 digits tell. -/
namespace WhaleIntelligence.Narrative
open WhaleIntelligence HashGroup

structure NarrativeEvidence where
  chain : String
  mint : String
  narrativeId : Int
  sourceKind : String
  polarity : String
  confidence : Int
  observedAt : DateTime
  deriving DecidableEq, Repr

/-- Score, whether evidence on the chain was met, and the count of rows, a `u32`. -/
structure Tally where
  score : Int
  onChain : Bool
  count : Nat
  deriving DecidableEq, Repr

structure TokenNarrative where
  slug : String
  score : Int
  confidence : Nat
  status : String
  evidenceCount : Nat
  onChainConfirmed : Bool
  deriving DecidableEq, Repr

/-! ## The code -/

def polarityWeight (polarity : String) : Int :=
  match polarity with
  | "supporting" => 1
  | "contradicting" => -1
  | _ => 0

def Tally.zero : Tally := ⟨0, false, 0⟩

/-- The tally with a row more; the count wraps. -/
def Tally.plus (t : Tally) (row : NarrativeEvidence) : Tally where
  score := t.score + polarityWeight row.polarity * max row.confidence 0
  onChain := t.onChain || row.sourceKind == "on_chain"
  count := (t.count + 1) % 4294967296

/-- In a build that checks an overflow of the count is a panic, `none` here. -/
def Tally.add (checks : Bool) (t : Tally) (row : NarrativeEvidence) : Option Tally :=
  if checks && t.count + 1 = 4294967296 then none else some (t.plus row)

/-- The loop over the rows. -/
def tallies (checks : Bool) (rows : List NarrativeEvidence) : Option (Map Int Tally) :=
  rows.foldlM (fun m row => do
    let t ← ((m.lookup row.narrativeId).getD Tally.zero).add checks row
    return m.insert row.narrativeId t) ∅

/-- The average, between zero and a hundred and rounded down. -/
def base (t : Tally) : Nat :=
  if t.count = 0 then 0 else ⌊max 0 (min ((t.score : Rat) / t.count) 100)⌋.toNat

def tokenNarrative (slug : String) (t : Tally) : TokenNarrative where
  slug
  score := t.score
  confidence := if t.onChain then min (base t) 100 else min (base t) 49
  status := if t.onChain then "confirmed" else "candidate"
  evidenceCount := t.count
  onChainConfirmed := t.onChain

/-- `WHERE chain = $1 AND mint = $2 AND observed_at <= $3`. -/
def counts (chain mint : String) (evaluationTime : DateTime) (row : NarrativeEvidence) : Bool :=
  row.chain = chain && row.mint = mint && row.observedAt ≤ evaluationTime

section
variable (checks : Bool) (order : Order Int Tally) (slugOf : Int → Option String) (rows : List NarrativeEvidence)
  (chain mint : String) (evaluationTime : DateTime)

/-- The tallies come in any order; `none` where one of them overflows or a narrative has no slug. -/
def classifyTokenNarratives : Option (List TokenNarrative) := do
  let byNarrative ← tallies checks (rows.filter (counts chain mint evaluationTime))
  let results ← (order.iterate byNarrative).mapM fun e => do
    let slug ← slugOf e.1
    return tokenNarrative slug e.2
  return results.insertionSort fun a b => b.confidence ≤ a.confidence

end

/-! ## Tallies -/

/-- What a row adds to the score, and whether it is on the chain. -/
def part (sourceKind polarity : String) (confidence : Int) : Int × Bool :=
  (polarityWeight polarity * max confidence 0, sourceKind == "on_chain")

def parts (rows : List NarrativeEvidence) (id : Int) : List (Int × Bool) :=
  (rows.filter fun row => row.narrativeId = id).map fun row => part row.sourceKind row.polarity row.confidence

def tallyParts (l : List (Int × Bool)) : Tally := ⟨(l.map Prod.fst).sum, l.any Prod.snd, l.length % 4294967296⟩

/-- The tally of a narrative. -/
def tallyOf (rows : List NarrativeEvidence) (id : Int) : Tally :=
  (rows.filter fun row => row.narrativeId = id).foldl Tally.plus Tally.zero

/-- The tallies of the rows, where the counts wrap. -/
def tallied (rows : List NarrativeEvidence) : Map Int Tally :=
  rows.foldl (fun m row => m.insert row.narrativeId (((m.lookup row.narrativeId).getD Tally.zero).plus row)) ∅

/-- No count overflows in a build that checks. -/
def Fits (checks : Bool) (rows : List NarrativeEvidence) : Prop :=
  checks = true → ∀ id, (parts rows id).length < 4294967296

section
variable {checks : Bool} {rows rows' : List NarrativeEvidence} {id : Int} {t : Tally}

theorem foldl_plus (rows : List NarrativeEvidence) : ∀ t : Tally, t.count < 4294967296 → rows.foldl Tally.plus t =
    ⟨t.score + ((rows.map fun row => part row.sourceKind row.polarity row.confidence).map Prod.fst).sum,
      t.onChain || (rows.map fun row => part row.sourceKind row.polarity row.confidence).any Prod.snd,
      (t.count + rows.length) % 4294967296⟩ := by
  induction rows with
  | nil =>
    intro t ht
    simp [Nat.mod_eq_of_lt ht]
  | cons row rows ih =>
    intro t ht
    rw [List.foldl_cons, ih (t.plus row) (Nat.mod_lt _ (by decide)), Tally.mk.injEq]
    refine ⟨?_, ?_, ?_⟩
    · simp [Tally.plus, part, add_assoc]
    · simp [Tally.plus, part, Bool.or_assoc]
    · rw [List.length_cons, Tally.plus]
      dsimp only
      omega

theorem tallyOf_eq (rows : List NarrativeEvidence) (id : Int) : tallyOf rows id = tallyParts (parts rows id) := by
  rw [tallyOf, foldl_plus _ _ (by decide), tallyParts, parts, Tally.mk.injEq]
  refine ⟨?_, ?_, ?_⟩
  · simp [Tally.zero]
  · simp [Tally.zero]
  · simp [Tally.zero]

theorem tallyParts_perm {l l' : List (Int × Bool)} (h : l.Perm l') : tallyParts l = tallyParts l' := by
  rw [tallyParts, tallyParts, (h.map Prod.fst).sum_eq, h.any_eq, h.length_eq]

theorem parts_ne_nil : parts rows id ≠ [] ↔ ∃ row ∈ rows, row.narrativeId = id := by
  rw [parts, ne_eq, List.map_eq_nil_iff, List.filter_eq_nil_iff]
  simp

theorem parts_append (l l' : List NarrativeEvidence) (id : Int) : parts (l ++ l') id = parts l id ++ parts l' id := by
  rw [parts, List.filter_append, List.map_append]
  rfl

theorem parts_perm (h : rows.Perm rows') (id : Int) : (parts rows id).Perm (parts rows' id) :=
  (h.filter _).map _

theorem tallyOf_perm (h : rows.Perm rows') (id : Int) : tallyOf rows id = tallyOf rows' id := by
  rw [tallyOf_eq, tallyOf_eq, tallyParts_perm (parts_perm h id)]

theorem getD_of_lookup {o : Option Tally}
    (h : o = if rows.filter (fun row => row.narrativeId = id) = [] then none else some (tallyOf rows id)) :
    o.getD Tally.zero = tallyOf rows id := by
  rw [h]
  split
  · rename_i hnil
    rw [tallyOf, hnil]
    rfl
  · rfl

theorem lookup_tallied (rows : List NarrativeEvidence) (id : Int) : (tallied rows).lookup id =
    if rows.filter (fun row => row.narrativeId = id) = [] then none else some (tallyOf rows id) := by
  induction rows using List.reverseRecOn with
  | nil => rfl
  | append_singleton rows row ih =>
    rw [tallied, List.foldl_concat, tallyOf, List.filter_append, List.filter_singleton]
    by_cases hid : row.narrativeId = id
    · rw [hid, AList.lookup_insert]
      simp only [decide_true, cond_true, List.foldl_concat]
      rw [if_neg (by simp)]
      exact congrArg (fun t => some (Tally.plus t row)) (getD_of_lookup ih)
    · rw [AList.lookup_insert_ne fun h => hid h.symm]
      simp only [hid, decide_false, cond_false, List.append_nil]
      exact ih

theorem fits_perm (h : rows.Perm rows') (hfits : Fits checks rows) : Fits checks rows' := fun hc id => by
  rw [← (parts_perm h id).length_eq]
  exact hfits hc id

/-- A row more fits where the rows before it do and it does not overflow the count of its narrative. -/
theorem fits_concat {row : NarrativeEvidence} : Fits checks (rows ++ [row]) ↔
    Fits checks rows ∧ (checks = true → (parts rows row.narrativeId).length + 1 < 4294967296) := by
  have hone : ∀ id, (parts [row] id).length = if row.narrativeId = id then 1 else 0 := by
    intro id
    rw [parts, List.filter_singleton]
    by_cases hid : row.narrativeId = id <;> simp [hid]
  constructor
  · refine fun h => ⟨fun hc id => ?_, fun hc => ?_⟩
    · have hall := h hc id
      rw [parts_append, List.length_append] at hall
      omega
    · have hall := h hc row.narrativeId
      rwa [parts_append, List.length_append, hone, if_pos rfl] at hall
  · rintro ⟨hrows, hlast⟩ hc id
    rw [parts_append, List.length_append, hone]
    split
    · rename_i hid
      exact hid ▸ hlast hc
    · exact hrows hc id

theorem add_eq_some {row : NarrativeEvidence} {t' : Tally} : t.add checks row = some t' ↔
    (checks = true → t.count + 1 ≠ 4294967296) ∧ t.plus row = t' := by
  unfold Tally.add
  cases checks <;> simp

theorem tallies_concat (rows : List NarrativeEvidence) (row : NarrativeEvidence) :
    tallies checks (rows ++ [row]) = (tallies checks rows).bind fun m =>
      (((m.lookup row.narrativeId).getD Tally.zero).add checks row).map fun t => m.insert row.narrativeId t := by
  rw [tallies, List.foldlM_append]
  refine congrArg (Option.bind (tallies checks rows)) (funext fun m => ?_)
  rw [List.foldlM_cons]
  cases ((m.lookup row.narrativeId).getD Tally.zero).add checks row <;> rfl

theorem tallied_concat (rows : List NarrativeEvidence) (row : NarrativeEvidence) :
    tallied (rows ++ [row]) = (tallied rows).insert row.narrativeId ((tallyOf rows row.narrativeId).plus row) := by
  rw [← getD_of_lookup (lookup_tallied rows row.narrativeId), tallied, List.foldl_concat]
  rfl

/-- The loop ends where no count overflows, and then the tallies are those of the rows. -/
theorem tallies_eq_some {m : Map Int Tally} : tallies checks rows = some m ↔ Fits checks rows ∧ tallied rows = m := by
  induction rows using List.reverseRecOn generalizing m with
  | nil =>
    rw [tallies, List.foldlM_nil]
    exact ⟨fun h => ⟨fun _ _ => Nat.zero_lt_succ _, Option.some.inj h⟩, fun h => congrArg some h.2⟩
  | append_singleton rows row ih =>
    have hbefore := getD_of_lookup (lookup_tallied rows row.narrativeId)
    have hcount : (tallyOf rows row.narrativeId).count = (parts rows row.narrativeId).length % 4294967296 := by
      rw [tallyOf_eq, tallyParts]
    rw [tallies_concat, fits_concat, tallied_concat]
    constructor
    · intro h
      obtain ⟨m₀, hm₀, h⟩ := Option.bind_eq_some_iff.mp h
      obtain ⟨hfits, rfl⟩ := ih.mp hm₀
      rw [hbefore] at h
      obtain ⟨t, ht, rfl⟩ := Option.map_eq_some_iff.mp h
      obtain ⟨hne, rfl⟩ := add_eq_some.mp ht
      refine ⟨⟨hfits, fun hc => ?_⟩, rfl⟩
      have hprev := hfits hc row.narrativeId
      have hlast := hne hc
      omega
    · rintro ⟨⟨hfits, hlast⟩, rfl⟩
      rw [ih.mpr ⟨hfits, rfl⟩, Option.bind_some, hbefore]
      refine Option.map_eq_some_iff.mpr ⟨_, add_eq_some.mpr ⟨fun hc => ?_, rfl⟩, rfl⟩
      have hbound := hlast hc
      omega

theorem onChain_tallyOf : (tallyOf rows id).onChain = true ↔
    ∃ row ∈ rows, row.narrativeId = id ∧ row.sourceKind = "on_chain" := by
  rw [tallyOf_eq, tallyParts, List.any_eq_true, parts]
  simp [part, and_assoc]

/-- Above the cap, or confirmed, is only what has evidence on the chain. -/
theorem confirmed_iff (slug : String) (t : Tally) :
    ((tokenNarrative slug t).status = "confirmed" ∨ 49 < (tokenNarrative slug t).confidence) ↔ t.onChain = true := by
  rw [tokenNarrative]
  cases t.onChain with
  | true => simp
  | false =>
    refine iff_of_false (fun h => ?_) Bool.false_ne_true
    obtain h | h := h
    · have hstatus : "candidate" = "confirmed" := h
      exact absurd hstatus (by decide)
    · simp at h

/-! ## Results -/

section
variable {order order' : Order Int Tally} {slugOf : Int → Option String} {chain mint : String}
  {evaluationTime : DateTime}

/-- The result of each entry of the tallies. -/
def resultOf (slugOf : Int → Option String) (e : Σ _ : Int, Tally) : TokenNarrative :=
  tokenNarrative ((slugOf e.1).getD "") e.2

/-- A narrative has a tally where a row of it counts. -/
theorem mem_iterate_tallied {e : Σ _ : Int, Tally} : e ∈ order.iterate (tallied rows) ↔
    (∃ row ∈ rows, row.narrativeId = e.1) ∧ tallyOf rows e.1 = e.2 := by
  have hnil : rows.filter (fun row => row.narrativeId = e.1) ≠ [] ↔ ∃ row ∈ rows, row.narrativeId = e.1 := by
    rw [ne_eq, List.filter_eq_nil_iff]
    simp
  obtain ⟨id, t⟩ := e
  rw [order.mem_iterate, lookup_tallied, ← hnil]
  split
  · rename_i h
    simp [h]
  · rename_i h
    simp [h]

/-- Where every narrative has its slug and no count overflows, the results are those of the tallies. -/
theorem classify_eq (order : Order Int Tally) (chain mint : String) (evaluationTime : DateTime)
    (hslug : ∀ row ∈ rows, (slugOf row.narrativeId).isSome)
    (hfits : Fits checks (rows.filter (counts chain mint evaluationTime))) :
    ∃ results, classifyTokenNarratives checks order slugOf rows chain mint evaluationTime = some results ∧
      results.Perm ((order.iterate (tallied (rows.filter (counts chain mint evaluationTime)))).map
        (resultOf slugOf)) := by
  have hloop : ∀ l : List (Σ _ : Int, Tally), (∀ e ∈ l, (slugOf e.1).isSome) →
      (l.mapM fun e => do
        let slug ← slugOf e.1
        return tokenNarrative slug e.2) = some (l.map (resultOf slugOf)) := by
    intro l
    induction l with
    | nil => exact fun _ => rfl
    | cons e l ih =>
      intro hl
      obtain ⟨slug, hs⟩ := Option.isSome_iff_exists.mp (hl e List.mem_cons_self)
      rw [List.mapM_cons, ih fun f hf => hl f (List.mem_cons_of_mem _ hf), List.map_cons, resultOf, hs]
      rfl
  have hsort := List.perm_insertionSort (fun a b : TokenNarrative => b.confidence ≤ a.confidence)
    ((order.iterate (tallied (rows.filter (counts chain mint evaluationTime)))).map (resultOf slugOf))
  refine ⟨_, ?_, hsort⟩
  rw [classifyTokenNarratives, tallies_eq_some.mpr ⟨hfits, rfl⟩, Option.bind_eq_bind, Option.bind_some, hloop]
  · rfl
  · intro e he
    obtain ⟨⟨row, hrow, hid⟩, -⟩ := mem_iterate_tallied.mp he
    exact hid ▸ hslug row (List.mem_filter.mp hrow).1

/-- A classification that ends has met no overflow. -/
theorem fits_of_classify {results : List TokenNarrative}
    (h : classifyTokenNarratives checks order slugOf rows chain mint evaluationTime = some results) :
    Fits checks (rows.filter (counts chain mint evaluationTime)) := by
  obtain ⟨m, hm, -⟩ := Option.bind_eq_some_iff.mp h
  exact (tallies_eq_some.mp hm).1

/-- Rows that count alike give the same tallies, in some order. -/
theorem iterate_tallied_perm (h : rows'.Perm rows) :
    (order'.iterate (tallied rows')).Perm (order.iterate (tallied rows)) := by
  refine (List.perm_ext_iff_of_nodup (order'.nodupKeys _).nodup (order.nodupKeys _).nodup).mpr fun e => ?_
  rw [mem_iterate_tallied, mem_iterate_tallied, tallyOf_perm h]
  simp only [h.mem_iff]

/-- Above the cap, or confirmed, is only what a row on the chain supports. -/
def Capped (slugOf : Int → Option String) (rows : List NarrativeEvidence) (chain mint : String)
    (evaluationTime : DateTime) (results : List TokenNarrative) : Prop :=
  ∀ n ∈ results, n.status = "confirmed" ∨ 49 < n.confidence →
    ∃ row ∈ rows, counts chain mint evaluationTime row = true ∧ slugOf row.narrativeId = some n.slug ∧
      row.sourceKind = "on_chain" ∧ row.polarity = "supporting"

/-- The cap is kept, whatever the order of the rows and whatever is observed later, exactly where each narrative with
    evidence on the chain has some that supports it, and no count overflows in a build that checks. -/
theorem classify_capped_iff (checks : Bool) (order : Order Int Tally)
    (hslug : ∀ row ∈ rows, (slugOf row.narrativeId).isSome)
    (hunique : ∀ i j s, slugOf i = some s → slugOf j = some s → i = j) :
    (∃ results, classifyTokenNarratives checks order slugOf rows chain mint evaluationTime = some results ∧
        Capped slugOf rows chain mint evaluationTime results ∧
        ∀ order' rows', (∀ row ∈ rows', (slugOf row.narrativeId).isSome) →
          (rows'.filter (counts chain mint evaluationTime)).Perm (rows.filter (counts chain mint evaluationTime)) →
          ∃ results', classifyTokenNarratives checks order' slugOf rows' chain mint evaluationTime = some results' ∧
            results'.Perm results) ↔
      (∀ row ∈ rows, counts chain mint evaluationTime row = true → row.sourceKind = "on_chain" →
        ∃ row' ∈ rows, counts chain mint evaluationTime row' = true ∧ row'.narrativeId = row.narrativeId ∧
          row'.sourceKind = "on_chain" ∧ row'.polarity = "supporting") ∧
      Fits checks (rows.filter (counts chain mint evaluationTime)) := by
  constructor
  · rintro ⟨results, hresults, hcapped, -⟩
    have hfits := fits_of_classify hresults
    refine ⟨fun row hrow hcounts hchain => ?_, hfits⟩
    obtain ⟨results', hresults', hperm⟩ := classify_eq order chain mint evaluationTime hslug hfits
    obtain rfl : results = results' := Option.some.inj (hresults.symm.trans hresults')
    have hcounted : row ∈ rows.filter (counts chain mint evaluationTime) := List.mem_filter.mpr ⟨hrow, hcounts⟩
    obtain ⟨slug, hs⟩ := Option.isSome_iff_exists.mp (hslug row hrow)
    -- the result of the narrative
    have hentry : (⟨row.narrativeId,
        tallyOf (rows.filter (counts chain mint evaluationTime)) row.narrativeId⟩ : Σ _ : Int, Tally) ∈
        order.iterate (tallied (rows.filter (counts chain mint evaluationTime))) :=
      mem_iterate_tallied.mpr ⟨⟨row, hcounted, rfl⟩, rfl⟩
    have hmem := hperm.mem_iff.mpr (List.mem_map_of_mem hentry)
    have honChain := onChain_tallyOf.mpr ⟨row, hcounted, rfl, hchain⟩
    obtain ⟨row', hrow', hcounts', hslug', hchain', hsupports⟩ := hcapped _ hmem ((confirmed_iff _ _).mpr honChain)
    refine ⟨row', hrow', hcounts', hunique _ _ slug ?_ hs, hchain', hsupports⟩
    rw [hslug']
    exact congrArg some (by rw [resultOf, hs]; rfl)
  · rintro ⟨h, hfits⟩
    obtain ⟨results, hresults, hperm⟩ := classify_eq order chain mint evaluationTime hslug hfits
    refine ⟨results, hresults, fun n hn hhigh => ?_, fun order' rows' hslug' hrows => ?_⟩
    · obtain ⟨e, he, rfl⟩ := List.mem_map.mp (hperm.mem_iff.mp hn)
      obtain ⟨-, htally⟩ := mem_iterate_tallied.mp he
      have honChain := (confirmed_iff _ _).mp hhigh
      rw [← htally] at honChain
      obtain ⟨row, hrow, hid, hchain⟩ := onChain_tallyOf.mp honChain
      obtain ⟨hrow, hcounts⟩ := List.mem_filter.mp hrow
      obtain ⟨row', hrow', hcounts', hid', hchain', hsupports⟩ := h row hrow hcounts hchain
      obtain ⟨slug, hs⟩ := Option.isSome_iff_exists.mp (hslug row hrow)
      refine ⟨row', hrow', hcounts', ?_, hchain', hsupports⟩
      rw [hid', hs]
      exact congrArg some (by rw [resultOf, ← hid, hs]; rfl)
    · obtain ⟨results', hresults', hperm'⟩ :=
        classify_eq order' chain mint evaluationTime hslug' (fits_perm hrows.symm hfits)
      exact ⟨results', hresults', hperm'.trans (((iterate_tallied_perm hrows).map _).trans hperm.symm)⟩

end

end

/-! ## Rows on the chain -/

def oneSlug (id : Int) : Option String := if id = 1 then some "meme" else none

def onChainRow (polarity : String) : NarrativeEvidence where
  chain := "solana"
  mint := "mint"
  narrativeId := 1
  sourceKind := "on_chain"
  polarity
  confidence := 60
  observedAt := 0

/-- A row of another source, one that contradicts the narrative on the chain, one that supports it there, and one that
is observed later. -/
def mixedRows : List NarrativeEvidence :=
  [{ onChainRow "supporting" with sourceKind := "gmgn", confidence := 100 }, onChainRow "contradicting",
    onChainRow "supporting", { onChainRow "supporting" with observedAt := 1 }]

theorem supporting_capped : ∃ results,
    classifyTokenNarratives true (Order.stored Int Tally) oneSlug mixedRows "solana" "mint" 0 = some results ∧
      Capped oneSlug mixedRows "solana" "mint" 0 results := by
  have honly : ∀ row ∈ mixedRows, row.narrativeId = 1 := by decide
  have hslug : ∀ row ∈ mixedRows, (oneSlug row.narrativeId).isSome := by decide
  have hunique : ∀ i j s, oneSlug i = some s → oneSlug j = some s → i = j := by
    intro i j s hi hj
    simp only [oneSlug] at hi hj
    split at hi
    · split at hj
      · omega
      · cases hj
    · cases hi
  have hfits : Fits true (mixedRows.filter (counts "solana" "mint" 0)) := fun _ id => by
    have hlength : (parts (mixedRows.filter (counts "solana" "mint" 0)) id).length ≤ 4 := by
      rw [parts, List.length_map]
      exact (List.length_filter_le _ _).trans (List.length_filter_le _ _)
    omega
  obtain ⟨results, hresults, hcapped, -⟩ := (classify_capped_iff true (Order.stored Int Tally) hslug hunique).mpr
    ⟨fun row hrow _ _ => ⟨onChainRow "supporting", by decide, by decide, (honly row hrow).symm, rfl, rfl⟩, hfits⟩
  exact ⟨results, hresults, hcapped⟩

/-- A row that contradicts the narrative confirms it. -/
theorem contradiction_confirms :
    (classifyTokenNarratives true (Order.stored Int Tally) oneSlug [onChainRow "contradicting"] "solana" "mint"
      0).map (List.map TokenNarrative.status) = some ["confirmed"] := by
  decide +kernel

end WhaleIntelligence.Narrative
