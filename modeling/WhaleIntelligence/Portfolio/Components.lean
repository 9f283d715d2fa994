import Mathlib.Data.List.Perm.Basic
import Mathlib.Data.Set.Card
import WhaleIntelligence.Portfolio.Projection

/- What a portfolio projection reports.

   The correlated lines are those with a list of keys; two of them are in one group if a
   chain of shared keys leads from one to the other. The projection counts these groups
   and sums the correlated lines, and no order of the lines or of their keys matters. The
   count is cast to 32 bits, so all this holds as long as there are fewer groups
   (`aggregates_iff`). -/
namespace WhaleIntelligence.Portfolio
open WhaleIntelligence HashGroup UnionFind Relation

/-! ## Components -/

/-- A line with a list of keys. -/
def Line (exposures : List Exposure) : Type :=
  {i : Fin exposures.length // (exposures.get i).correlated.isSome = true}

def Line.keys {exposures : List Exposure} (line : Line exposures) : List String := (exposures.get line.1).keys

/-- The two lines share a correlation key. -/
def Shares (exposures : List Exposure) (a b : Line exposures) : Prop := ∃ k, k ∈ a.keys ∧ k ∈ b.keys

/-- The number of connected components of the correlated lines. -/
noncomputable def components (exposures : List Exposure) : Nat := Nat.card (Quot (Shares exposures))

section
variable {exposures : List Exposure} {i j : Fin exposures.length}

theorem isSome_of_mem_keys {e : Exposure} {k : String} (h : k ∈ e.keys) : e.correlated.isSome = true := by
  cases hkeys : e.correlated with
  | none =>
    rw [Exposure.keys, hkeys] at h
    exact absurd h List.not_mem_nil
  | some keys => rfl

/-- A chain of shared keys that starts at a correlated line stays on correlated lines. -/
theorem eqvGen_shares (h : EqvGen (SharesKey exposures) i j) :
    (∀ hi, ∃ hj, EqvGen (Shares exposures) ⟨i, hi⟩ ⟨j, hj⟩) ∧
      ∀ hj, ∃ hi, EqvGen (Shares exposures) ⟨i, hi⟩ ⟨j, hj⟩ := by
  induction h with
  | rel i j hij =>
    obtain ⟨k, hi, hj⟩ := hij
    have hline : ∀ hi' hj', EqvGen (Shares exposures) ⟨i, hi'⟩ ⟨j, hj'⟩ := fun _ _ => EqvGen.rel _ _ ⟨k, hi, hj⟩
    exact ⟨fun hi' => ⟨isSome_of_mem_keys hj, hline _ _⟩, fun hj' => ⟨isSome_of_mem_keys hi, hline _ _⟩⟩
  | refl i => exact ⟨fun hi => ⟨hi, EqvGen.refl _⟩, fun hi => ⟨hi, EqvGen.refl _⟩⟩
  | symm i j _ ih =>
    constructor
    · intro hj
      obtain ⟨hi, h⟩ := ih.2 hj
      exact ⟨hi, EqvGen.symm _ _ h⟩
    · intro hi
      obtain ⟨hj, h⟩ := ih.1 hi
      exact ⟨hj, EqvGen.symm _ _ h⟩
  | trans i j l _ _ hij hjl =>
    constructor
    · intro hi
      obtain ⟨hj, h⟩ := hij.1 hi
      obtain ⟨hl, h'⟩ := hjl.1 hj
      exact ⟨hl, EqvGen.trans _ _ _ h h'⟩
    · intro hl
      obtain ⟨hj, h'⟩ := hjl.2 hl
      obtain ⟨hi, h⟩ := hij.2 hj
      exact ⟨hi, EqvGen.trans _ _ _ h h'⟩

theorem sharesKey_of_shares {a b : Line exposures} (h : EqvGen (Shares exposures) a b) :
    EqvGen (SharesKey exposures) a.1 b.1 := by
  induction h with
  | rel a b hab => exact EqvGen.rel _ _ hab
  | refl a => exact EqvGen.refl _
  | symm a b _ ih => exact EqvGen.symm _ _ ih
  | trans a b c _ _ hab hbc => exact EqvGen.trans _ _ _ hab hbc

variable {parent : Parents exposures.length} {root : Fin exposures.length → Fin exposures.length}

/-- Two correlated lines have one root exactly where they are in one component. -/
theorem root_eq_iff (h : Represents parent (SharesKey exposures)) (hroot : ∀ i, RootOf parent i (root i))
    (a b : Line exposures) : root a.1 = root b.1 ↔ Quot.mk (Shares exposures) a = Quot.mk _ b := by
  have hsame : root a.1 = root b.1 ↔ Same parent a.1 b.1 := by
    constructor
    · intro heq
      exact ⟨root a.1, hroot a.1, heq ▸ hroot b.1⟩
    · intro hsame
      exact hsame.eq (hroot a.1) (hroot b.1)
  rw [hsame, h.same_iff]
  constructor
  · intro hab
    obtain ⟨hb, hab⟩ := (eqvGen_shares hab).1 a.2
    exact Quot.eqvGen_sound hab
  · intro hab
    exact sharesKey_of_shares (Quot.eqvGen_exact hab)

/-- There are as many components as roots of correlated lines. -/
theorem components_eq (h : Represents parent (SharesKey exposures)) (hroot : ∀ i, RootOf parent i (root i)) :
    components exposures = Nat.card (Set.range fun a : Line exposures => root a.1) := by
  let rootOf : Quot (Shares exposures) → Fin exposures.length :=
    Quot.lift (fun a => root a.1) fun a b hab => (root_eq_iff h hroot a b).mpr (Quot.sound hab)
  have hinj : Function.Injective rootOf := by
    rintro ⟨a⟩ ⟨b⟩ hab
    exact (root_eq_iff h hroot a b).mp hab
  calc components exposures = Nat.card (Set.range rootOf) := Nat.card_congr (Equiv.ofInjective rootOf hinj)
    _ = Nat.card (Set.range fun a : Line exposures => root a.1) := by rw [Set.range_quot_lift]

end

/-! ## The sums of the groups -/

section
variable (x : Crates) {fuel : Nat} {exposures : List Exposure} {parent : Parents exposures.length}
  {root : Fin exposures.length → Fin exposures.length}

def correlatedLines (exposures : List Exposure) : List (Fin exposures.length) :=
  (List.finRange exposures.length).filter fun i => (exposures.get i).correlated.isSome

theorem addLines_from (hfuel : exposures.length ≤ fuel) (hroot : ∀ i, RootOf parent i (root i)) :
    ∀ (lines : List (Fin exposures.length)) (st : Groups exposures.length),
      (∀ i s, RootOf parent i s → RootOf st.1 i s) →
      ∃ parent', lines.foldlM (addLine x fuel exposures) st =
        some (parent', (lines.filter fun i => (exposures.get i).correlated.isSome).foldl
          (fun m i => addTo m (root i) ((exposures.get i).amount x)) st.2)
  | [], st, _ => ⟨st.1, rfl⟩
  | i :: lines, st, hst => by
    by_cases hi : (exposures.get i).correlated.isSome = true
    · obtain ⟨parent₁, hfind, hroots⟩ := find_spec (hst i (root i) (hroot i)) hfuel
      have hline : addLine x fuel exposures st i =
          some (parent₁, addTo st.2 (root i) ((exposures.get i).amount x)) := by
        rw [addLine, if_pos hi, hfind]
        rfl
      obtain ⟨parent', hlines⟩ := addLines_from hfuel hroot lines
        (parent₁, addTo st.2 (root i) ((exposures.get i).amount x)) fun j s hj => hroots j s (hst j s hj)
      refine ⟨parent', ?_⟩
      rw [List.foldlM_cons, hline, List.filter_cons, if_pos hi, List.foldl_cons]
      exact hlines
    · obtain ⟨parent', hlines⟩ := addLines_from hfuel hroot lines st hst
      refine ⟨parent', ?_⟩
      rw [List.foldlM_cons, addLine, if_neg hi, List.filter_cons, if_neg hi]
      exact hlines

/-- The sums are those of the correlated lines by their roots. -/
theorem addLines_spec (hfuel : exposures.length ≤ fuel) (hroot : ∀ i, RootOf parent i (root i)) :
    ∃ parent', addLines x fuel exposures parent =
      some (parent', tally root (fun i => (exposures.get i).amount x) (correlatedLines exposures)) :=
  addLines_from x hfuel hroot (List.finRange exposures.length) (parent, ∅) fun _ _ h => h

theorem card_tally (m : Map (Fin exposures.length) Rat)
    (hm : ∀ r, r ∈ m ↔ ∃ i ∈ correlatedLines exposures, root i = r) :
    m.entries.length = Nat.card (Set.range fun a : Line exposures => root a.1) := by
  have hkeys : (m.keys.toFinset : Set (Fin exposures.length)) = Set.range fun a : Line exposures => root a.1 := by
    ext r
    rw [List.coe_toFinset, Set.mem_ofPred_eq, ← AList.mem_keys, hm, Set.mem_range]
    constructor
    · rintro ⟨i, hi, rfl⟩
      exact ⟨⟨i, (List.mem_filter.mp hi).2⟩, rfl⟩
    · rintro ⟨a, rfl⟩
      exact ⟨a.1, List.mem_filter.mpr ⟨List.mem_finRange a.1, a.2⟩, rfl⟩
  rw [← hkeys, Nat.card_coe_set_eq, Set.ncard_coe_finset, List.toFinset_card_of_nodup m.keys_nodup]
  simp [AList.keys, List.keys]

/-- What the projection of the lines is. -/
noncomputable def projection (x : Crates) (exposures : List Exposure) : PortfolioProjection where
  totalNotional := (exposures.map fun e => e.amount x).sum
  byKind := (tally Exposure.kind (fun e => e.amount x) exposures).toFinmap
  correlatedNotional := ((exposures.filter fun e => e.correlated.isSome).map fun e => e.amount x).sum
  correlationGroups := UInt32.ofNat (components exposures)

theorem foldl_addTotal (l : List Exposure) : l.foldl (addTotal x) (0, ∅) =
    ((l.map fun e => e.amount x).sum, tally Exposure.kind (fun e => e.amount x) l) := by
  induction l using List.reverseRecOn with
  | nil => rfl
  | append_singleton l e ih =>
    rw [List.foldl_concat, ih, addTotal, tally_concat, List.map_append, List.sum_append, List.map_singleton,
      List.sum_singleton]

theorem sum_correlatedLines : ((correlatedLines exposures).map fun i => (exposures.get i).amount x).sum =
    ((exposures.filter fun e => e.correlated.isSome).map fun e => e.amount x).sum := by
  have hget : exposures = (List.finRange exposures.length).map exposures.get := by simp
  conv_rhs => rw [hget, List.filter_map, List.map_map]
  rfl

/-- The loops return within as many rounds as there are lines, and the iteration order of the hash map
    plays no part. -/
theorem project_eq (order : ∀ n, Order (Fin n) Rat) (hfuel : exposures.length ≤ fuel) :
    project x order fuel exposures = some (projection x exposures) := by
  obtain ⟨owners, howners, hrep⟩ := declareLines_represents hfuel
  obtain ⟨root, hroot⟩ := Classical.axiomOfChoice hrep.forest
  obtain ⟨parent', hlines⟩ := addLines_spec x hfuel hroot
  have hcard := card_tally (tally root (fun i => (exposures.get i).amount x) (correlatedLines exposures))
    fun r => mem_tally root _
  rw [project, foldl_addTotal, howners]
  simp only [Option.bind_eq_bind, Option.bind_some, hlines, Order.foldl_sum, sum_tally, sum_correlatedLines, hcard,
    ← components_eq hrep hroot]
  rfl

end

/-! ## Orders of the lines and of their keys -/

/-- The lines are the same but for the order of their keys. -/
structure KeysPermuted (e e' : Exposure) : Prop where
  kind : e'.kind = e.kind
  key : e'.key = e.key
  notional : e'.notional = e.notional
  correlated : Option.Rel List.Perm e.correlated e'.correlated

/-- The lines in another order, each with its keys in any order. -/
def Reordered (exposures exposures' : List Exposure) : Prop :=
  ∃ mid, exposures.Perm mid ∧ List.Forall₂ KeysPermuted mid exposures'

section
variable {x : Crates} {e e' : Exposure} {exposures exposures' : List Exposure}

theorem KeysPermuted.amount (h : KeysPermuted e e') : e.amount x = e'.amount x := by
  rw [Exposure.amount, Exposure.amount, h.notional]

theorem KeysPermuted.isSome (h : KeysPermuted e e') : e.correlated.isSome = e'.correlated.isSome := by
  have := h.correlated
  revert this
  cases e.correlated <;> cases e'.correlated <;> intro h <;> cases h <;> rfl

theorem KeysPermuted.mem_keys (h : KeysPermuted e e') (k : String) : k ∈ e.keys ↔ k ∈ e'.keys := by
  have := h.correlated
  rw [Exposure.keys, Exposure.keys]
  revert this
  cases e.correlated <;> cases e'.correlated <;> intro h <;> cases h
  · rfl
  · rename_i h
    exact h.mem_iff

theorem filter_map_eq {β : Type} {p : Exposure → Bool} {f : Exposure → β}
    (hp : ∀ e e', KeysPermuted e e' → p e = p e') (hf : ∀ e e', KeysPermuted e e' → f e = f e')
    (h : List.Forall₂ KeysPermuted exposures exposures') :
    (exposures.filter p).map f = (exposures'.filter p).map f := by
  induction h with
  | nil => rfl
  | @cons e e' l l' he _ ih =>
    rw [List.filter_cons, List.filter_cons, hp e e' he]
    by_cases hpe : p e' = true
    · rw [if_pos hpe, if_pos hpe, List.map_cons, List.map_cons, hf e e' he, ih]
    · rw [if_neg hpe, if_neg hpe, ih]

/-- What does not see the order of the keys is only put in another order. -/
theorem Reordered.filter_map_perm {β : Type} {p : Exposure → Bool} {f : Exposure → β}
    (h : Reordered exposures exposures') (hp : ∀ e e', KeysPermuted e e' → p e = p e')
    (hf : ∀ e e', KeysPermuted e e' → f e = f e') :
    ((exposures.filter p).map f).Perm ((exposures'.filter p).map f) := by
  obtain ⟨mid, hperm, hkeys⟩ := h
  rw [← filter_map_eq hp hf hkeys]
  exact (hperm.filter p).map f

/-- The lines of a property have the same sum. -/
theorem Reordered.sum_eq {p : Exposure → Bool} (h : Reordered exposures exposures')
    (hp : ∀ e e', KeysPermuted e e' → p e = p e') :
    ((exposures.filter p).map fun e => e.amount x).sum = ((exposures'.filter p).map fun e => e.amount x).sum :=
  (h.filter_map_perm hp fun _ _ he => he.amount).sum_eq

/-- Each line has its place in the other list. -/
theorem Reordered.places (h : Reordered exposures exposures') :
    ∃ place : Fin exposures.length ≃ Fin exposures'.length,
      ∀ i, KeysPermuted (exposures.get i) (exposures'.get (place i)) := by
  obtain ⟨mid, hperm, hkeys⟩ := h
  let place : Fin exposures.length ≃ Fin mid.length :=
    ⟨hperm.idxBij, hperm.symm.idxBij, fun _ => hperm.idxBij_symm_idxBij, fun _ => hperm.idxBij_idxBij_symm⟩
  refine ⟨place.trans (finCongr hkeys.length_eq), ?_⟩
  intro i
  have hget : mid.get (place i) = exposures.get i := hperm.getElem_idxBij_eq_getElem i
  rw [← hget]
  exact hkeys.get (place i).2 _

theorem Reordered.components_eq (h : Reordered exposures exposures') :
    components exposures = components exposures' := by
  obtain ⟨place, hplace⟩ := h.places
  have hline : ∀ i, (exposures.get i).correlated.isSome = true ↔ (exposures'.get (place i)).correlated.isSome = true :=
    fun i => by rw [(hplace i).isSome]
  let lines : Line exposures ≃ Line exposures' := place.subtypeEquiv hline
  have hshares : ∀ a b, Shares exposures a b ↔ Shares exposures' (lines a) (lines b) := by
    intro a b
    apply exists_congr
    intro k
    exact and_congr ((hplace a.1).mem_keys k) ((hplace b.1).mem_keys k)
  exact Nat.card_congr (Quot.congr lines hshares)

theorem Reordered.lookup_eq (h : Reordered exposures exposures') (kind : String) :
    (tally Exposure.kind (fun e => e.amount x) exposures).lookup kind =
      (tally Exposure.kind (fun e => e.amount x) exposures').lookup kind := by
  have hkind : ∀ e e', KeysPermuted e e' → decide (e.kind = kind) = decide (e'.kind = kind) :=
    fun _ _ he => by rw [he.kind]
  have hperm := h.filter_map_perm (f := Exposure.kind) hkind fun _ _ he => he.kind.symm
  have hnil : exposures.filter (fun e => e.kind = kind) = [] ↔ exposures'.filter (fun e => e.kind = kind) = [] := by
    rw [← List.length_eq_zero_iff, ← List.length_eq_zero_iff]
    have := hperm.length_eq
    rw [List.length_map, List.length_map] at this
    rw [this]
  rw [lookup_tally, lookup_tally, h.sum_eq hkind]
  simp only [hnil]

/-- Other orders give the same projection. -/
theorem Reordered.projection_eq (h : Reordered exposures exposures') :
    projection x exposures = projection x exposures' := by
  have htotal := h.sum_eq (x := x) (p := fun _ => true) fun _ _ _ => rfl
  rw [List.filter_true, List.filter_true] at htotal
  have hkind : (tally Exposure.kind (fun e => e.amount x) exposures).toFinmap =
      (tally Exposure.kind (fun e => e.amount x) exposures').toFinmap := by
    apply Finmap.ext_lookup
    intro kind
    rw [Finmap.lookup_toFinmap, Finmap.lookup_toFinmap]
    exact h.lookup_eq kind
  rw [projection, projection, htotal, hkind, h.sum_eq fun _ _ he => he.isSome, h.components_eq]

end

/-! ## What is reported -/

/-- The projection is the aggregation of the lines. -/
structure Aggregates (x : Crates) (exposures : List Exposure) (p : PortfolioProjection) : Prop where
  total : p.totalNotional = (exposures.map fun e => e.amount x).sum
  byKind : ∀ kind, p.byKind.lookup kind =
    if exposures.filter (fun e => e.kind = kind) = [] then none
    else some ((exposures.filter fun e => e.kind = kind).map fun e => e.amount x).sum
  groups : p.correlationGroups.toNat = components exposures
  correlated : p.correlatedNotional = ((exposures.filter fun e => e.correlated.isSome).map fun e => e.amount x).sum

theorem toNat_ofNat_eq_iff (n : Nat) : (UInt32.ofNat n).toNat = n ↔ n < 2 ^ 32 := by
  rw [UInt32.toNat_ofNat']
  exact Nat.mod_eq_iff_lt (by decide)

/-- All but the count of the groups is right for every list. -/
theorem projection_aggregates_iff (x : Crates) (exposures : List Exposure) :
    Aggregates x exposures (projection x exposures) ↔ components exposures < 2 ^ 32 := by
  rw [← toNat_ofNat_eq_iff]
  constructor
  · intro h
    exact h.groups
  · intro h
    refine ⟨rfl, ?_, h, rfl⟩
    intro kind
    rw [projection, Finmap.lookup_toFinmap, lookup_tally]

/-- `project` always returns and gives the same for every order of the lines and of their keys. It is the
    aggregation of the lines exactly where their components can be counted with 32 bits. -/
theorem aggregates_iff (x : Crates) (exposures : List Exposure) :
    (∀ order fuel, exposures.length ≤ fuel →
      ∃ p, project x order fuel exposures = some p ∧ Aggregates x exposures p ∧
        ∀ order' fuel' exposures', Reordered exposures exposures' → exposures'.length ≤ fuel' →
          project x order' fuel' exposures' = some p) ↔
      components exposures < 2 ^ 32 := by
  rw [← projection_aggregates_iff x]
  constructor
  · intro h
    obtain ⟨p, hp, hagg, -⟩ := h (fun _ => Order.stored _ _) exposures.length (Nat.le_refl _)
    rw [project_eq x _ (Nat.le_refl _), Option.some_inj] at hp
    rw [hp]
    exact hagg
  · intro hagg order fuel hfuel
    refine ⟨projection x exposures, project_eq x order hfuel, hagg, ?_⟩
    intro order' fuel' exposures' hre hfuel'
    rw [project_eq x order' hfuel', hre.projection_eq]

/-- Lines with empty lists of keys are groups of their own. -/
theorem components_of_keyless {exposures : List Exposure} (h : ∀ e ∈ exposures, e.correlated = some []) :
    components exposures = exposures.length := by
  have hline : ∀ i, (exposures.get i).correlated.isSome = true := fun i => by
    rw [h _ (exposures.get_mem i)]
    rfl
  have hnone : ∀ a b, ¬Shares exposures a b := by
    rintro a b ⟨k, hk, -⟩
    rw [Line.keys, Exposure.keys, h _ (exposures.get_mem a.1)] at hk
    exact absurd hk List.not_mem_nil
  have hinj : Function.Injective (Quot.mk (Shares exposures)) := by
    intro a b hab
    have hgen := Quot.eqvGen_exact hab
    clear hab
    induction hgen with
    | rel a b hab => exact absurd hab (hnone a b)
    | refl a => rfl
    | symm a b _ ih => exact ih.symm
    | trans a b c _ _ hab hbc => exact hab.trans hbc
  have hbij : Function.Bijective (Quot.mk (Shares exposures)) := ⟨hinj, Quot.exists_rep⟩
  calc components exposures = Nat.card (Line exposures) := (Nat.card_congr (Equiv.ofBijective _ hbij)).symm
    _ = Nat.card (Fin exposures.length) := Nat.card_congr (Equiv.subtypeUnivEquiv hline)
    _ = exposures.length := Nat.card_fin _

def keyless : Exposure := ⟨"token", "T1", "1", some []⟩

/-- A group for each of `2 ^ 32` lines, and none is reported. -/
theorem groups_wrap : components (List.replicate (2 ^ 32) keyless) = 2 ^ 32 ∧
    ∀ x order fuel, (List.replicate (2 ^ 32) keyless).length ≤ fuel →
      ∃ p, project x order fuel (List.replicate (2 ^ 32) keyless) = some p ∧ p.correlationGroups = 0 := by
  have hcount : components (List.replicate (2 ^ 32) keyless) = 2 ^ 32 := by
    rw [components_of_keyless, List.length_replicate]
    intro e he
    rw [List.eq_of_mem_replicate he, keyless]
  refine ⟨hcount, ?_⟩
  intro x order fuel hfuel
  refine ⟨_, project_eq x order hfuel, ?_⟩
  rw [projection, hcount]
  rfl

end WhaleIntelligence.Portfolio
