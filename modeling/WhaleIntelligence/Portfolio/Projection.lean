import Mathlib.Algebra.Order.Ring.Rat
import Mathlib.Data.Finmap
import Mathlib.Data.List.FinRange
import WhaleIntelligence.Lib.HashGroup
import WhaleIntelligence.Lib.UnionFind
import WhaleIntelligence.Rust

/- The portfolio projection: `project`.

   The lines of exposure are summed, in total and for each kind. A union-find over the
   indices of the lines merges each line with the first owner of every key it declares;
   the sums of the groups are then taken over a hash map, whose iteration order is a
   parameter.

   The loops of `find` get fuel. They always return within as many rounds as there are
   lines (`find_spec`), and after the last line the pointers represent the lines that
   share a key (`declareLines_represents`). -/
namespace WhaleIntelligence.Portfolio
open WhaleIntelligence HashGroup UnionFind Relation

/-- A line of exposure. -/
structure Exposure where
  kind : String
  key : String
  notional : String
  correlated : Option (List String)
  deriving DecidableEq, Repr

structure PortfolioProjection where
  totalNotional : Rat
  byKind : Finmap fun _ : String => Rat
  correlatedNotional : Rat
  correlationGroups : UInt32
  deriving DecidableEq

/-- A text that does not parse counts as zero. -/
def parseDecimal (x : Crates) (s : String) : Rat := (x.parseDecimal s).getD 0

def Exposure.amount (x : Crates) (e : Exposure) : Rat := parseDecimal x e.notional

/-- The keys the line declares; an absent list declares none. -/
def Exposure.keys (e : Exposure) : List String := e.correlated.getD []

/-! ## Union-find -/

section
variable {n : Nat}

/-- `parent` is a vector of `n` indices. -/
abbrev Parents (n : Nat) := Fin n → Fin n

/-- The first loop of `find`. -/
def climb (parent : Parents n) : Nat → Fin n → Option (Fin n)
  | 0, _ => none
  | fuel + 1, r => if parent r ≠ r then climb parent fuel (parent r) else some r

/-- The second loop of `find`, path compression. -/
def compress (r : Fin n) : Nat → Parents n → Fin n → Option (Parents n)
  | 0, _, _ => none
  | fuel + 1, parent, c =>
    if parent c ≠ c then compress r fuel (Function.update parent c r) (parent c) else some parent

def find (fuel : Nat) (parent : Parents n) (x : Fin n) : Option (Fin n × Parents n) := do
  let r ← climb parent fuel x
  let parent ← compress r fuel parent x
  return (r, parent)

def union (fuel : Nat) (parent : Parents n) (a b : Fin n) : Option (Parents n) := do
  let (ra, parent) ← find fuel parent a
  let (rb, parent) ← find fuel parent b
  return if ra ≠ rb then Function.update parent rb ra else parent

end

/-! ## The projection -/

section
variable (x : Crates)

def addTotal (st : Rat × Map String Rat) (e : Exposure) : Rat × Map String Rat :=
  (st.1 + e.amount x, addTo st.2 e.kind (e.amount x))

section
variable (fuel : Nat) (exposures : List Exposure)

/-- The pointers, and the first line that declared each key. -/
structure Owners (n : Nat) where
  parent : Parents n
  keyOwner : Finmap fun _ : String => Fin n

def declareKey {n : Nat} (i : Fin n) (st : Owners n) (k : String) : Option (Owners n) :=
  match st.keyOwner.lookup k with
  | some owner => (union fuel st.parent i owner).map fun parent => { st with parent := parent }
  | none => some { st with keyOwner := st.keyOwner.insert k i }

def declareLine (st : Owners exposures.length) (i : Fin exposures.length) : Option (Owners exposures.length) :=
  match (exposures.get i).correlated with
  | some keys => keys.foldlM (declareKey fuel i) st
  | none => some st

def declareLines : Option (Owners exposures.length) :=
  (List.finRange exposures.length).foldlM (declareLine fuel exposures) ⟨id, ∅⟩

/-- The pointers, and the sum of each root. -/
abbrev Groups (n : Nat) := Parents n × Map (Fin n) Rat

def addLine (st : Groups exposures.length) (i : Fin exposures.length) : Option (Groups exposures.length) :=
  if (exposures.get i).correlated.isSome then
    (find fuel st.1 i).map fun found => (found.2, addTo st.2 found.1 ((exposures.get i).amount x))
  else some st

def addLines (parent : Parents exposures.length) : Option (Groups exposures.length) :=
  (List.finRange exposures.length).foldlM (addLine x fuel exposures) (parent, ∅)

end

def project (order : ∀ n, Order (Fin n) Rat) (fuel : Nat) (exposures : List Exposure) : Option PortfolioProjection := do
  let totals := exposures.foldl (addTotal x) (0, ∅)
  let owners ← declareLines fuel exposures
  let groups ← addLines x fuel exposures owners.parent
  return {
    totalNotional := totals.1
    byKind := totals.2.toFinmap
    correlatedNotional := ((order _).iterate groups.2).foldl (fun sum e => sum + e.2) 0
    correlationGroups := UInt32.ofNat groups.2.entries.length }

end

/-! ## `find` and `union` -/

section
variable {n : Nat} {parent : Parents n} {fuel k : Nat} {x r : Fin n}

theorem climb_eq (h : Climbs parent k x r) : ∀ {fuel}, k < fuel → climb parent fuel x = some r := by
  induction h with
  | root h =>
    intro fuel hfuel
    cases fuel with
    | zero => omega
    | succ fuel => simp [climb, h]
  | step hne _ ih =>
    intro fuel hfuel
    cases fuel with
    | zero => omega
    | succ fuel =>
      rw [climb, if_pos hne]
      exact ih (by omega)

/-- Compression changes no root. -/
theorem compress_spec (h : Climbs parent k x r) :
    ∀ {fuel}, k < fuel → ∃ parent', compress r fuel parent x = some parent' ∧
      ∀ y s, RootOf parent y s → RootOf parent' y s := by
  induction k generalizing parent x with
  | zero =>
    intro fuel hfuel
    cases h with
    | root h =>
      cases fuel with
      | zero => omega
      | succ fuel => exact ⟨parent, by simp [compress, h], fun _ _ hy => hy⟩
  | succ k ih =>
    intro fuel hfuel
    have hx : RootOf parent x r := ⟨k + 1, h⟩
    cases h with
    | step hne hrest =>
      cases fuel with
      | zero => omega
      | succ fuel =>
        -- the rest of the path is climbed as before the write
        have hnext : Climbs (Function.update parent x r) k (parent x) r :=
          hrest.update (Climbs.step hne hrest) (Nat.lt_succ_self k) r
        obtain ⟨parent', hcompress, hroots⟩ := @ih _ _ hnext fuel (by omega)
        refine ⟨parent', ?_, fun y s hy => hroots y s (hx.redirect hy)⟩
        rw [compress, if_pos hne]
        exact hcompress

/-- `find` returns the root, and changes none. -/
theorem find_spec (hr : RootOf parent x r) (hfuel : n ≤ fuel) :
    ∃ parent', find fuel parent x = some (r, parent') ∧ ∀ y s, RootOf parent y s → RootOf parent' y s := by
  obtain ⟨k, hk⟩ := hr
  have hlt : k < fuel := by
    have := hk.lt_card
    rw [Fintype.card_fin] at this
    omega
  obtain ⟨parent', hcompress, hroots⟩ := compress_spec hk hlt
  refine ⟨parent', ?_, hroots⟩
  simp [find, climb_eq hk hlt, hcompress]

/-- `union` returns, and adds the pair to what the pointers represent. -/
theorem union_spec {R : Fin n → Fin n → Prop} (h : Represents parent R) (hfuel : n ≤ fuel) (a b : Fin n) :
    ∃ parent', union fuel parent a b = some parent' ∧
      Represents parent' fun x y => R x y ∨ (x = a ∧ y = b) := by
  obtain ⟨ra, ha⟩ := h.forest a
  obtain ⟨parent₁, hfind₁, hroots₁⟩ := find_spec ha hfuel
  obtain ⟨rb, hb⟩ := (h.of_roots hroots₁).forest b
  obtain ⟨parent₂, hfind₂, hroots₂⟩ := find_spec hb hfuel
  have h₂ : Represents parent₂ R := (h.of_roots hroots₁).of_roots hroots₂
  have ha₂ : RootOf parent₂ a ra := hroots₂ a ra (hroots₁ a ra ha)
  have hb₂ : RootOf parent₂ b rb := hroots₂ b rb hb
  refine ⟨if ra ≠ rb then Function.update parent₂ rb ra else parent₂, by simp [union, hfind₁, hfind₂], ?_⟩
  by_cases hab : ra = rb
  · rw [if_neg (not_not.mpr hab)]
    exact h₂.skip ⟨ra, ha₂, hab ▸ hb₂⟩
  · rw [if_pos hab]
    exact h₂.link ha₂ hb₂ hab

end

/-! ## The owners of the keys -/

section
variable {n : Nat} {fuel : Nat}

/-- Two lines that declared one of the pairs' keys. -/
def Declared (done : List (Fin n × String)) (i j : Fin n) : Prop := ∃ k, (i, k) ∈ done ∧ (j, k) ∈ done

/-- After the pairs of a line and a key have been declared. -/
structure Owned (done : List (Fin n × String)) (st : Owners n) : Prop where
  represents : Represents st.parent (Declared done)
  owner : ∀ {k i}, st.keyOwner.lookup k = some i → (i, k) ∈ done
  owned : ∀ {i k}, (i, k) ∈ done → (st.keyOwner.lookup k).isSome

theorem owned_nil : Owned [] (⟨id, ∅⟩ : Owners n) where
  represents := by
    apply represents_id.congr
    intro i j
    have hnone : (fun _ _ : Fin n => False) = Declared [] := by
      funext i j
      simp [Declared]
    rw [hnone]
  owner h := by simp at h
  owned h := absurd h List.not_mem_nil

theorem Declared.mono {done done' : List (Fin n × String)} (h : ∀ p ∈ done, p ∈ done') {i j : Fin n}
    (hij : Declared done i j) : Declared done' i j := by
  obtain ⟨k, hi, hj⟩ := hij
  exact ⟨k, h _ hi, h _ hj⟩

/-- With one more pair, the line is related to the lines that declared the key before. -/
theorem declared_concat {done : List (Fin n × String)} {i j a : Fin n} {k : String}
    (h : Declared (done ++ [(a, k)]) i j) :
    Declared done i j ∨ (i = a ∧ (j, k) ∈ done) ∨ (j = a ∧ (i, k) ∈ done) ∨ (i = a ∧ j = a) := by
  obtain ⟨k', hi, hj⟩ := h
  simp only [List.mem_append, List.mem_singleton, Prod.mk.injEq] at hi hj
  obtain hi | ⟨rfl, rfl⟩ := hi
  · obtain hj | ⟨rfl, rfl⟩ := hj
    · exact Or.inl ⟨k', hi, hj⟩
    · exact Or.inr (Or.inr (Or.inl ⟨rfl, hi⟩))
  · obtain hj | ⟨rfl, -⟩ := hj
    · exact Or.inr (Or.inl ⟨rfl, hj⟩)
    · exact Or.inr (Or.inr (Or.inr ⟨rfl, rfl⟩))

/-- The union with the owner stands for the relation to all who declared the key. -/
theorem eqvGen_owner {done : List (Fin n × String)} {a owner : Fin n} {k : String} (howner : (owner, k) ∈ done)
    (i j : Fin n) :
    EqvGen (fun i j => Declared done i j ∨ (i = a ∧ j = owner)) i j ↔ EqvGen (Declared (done ++ [(a, k)])) i j := by
  have hold : ∀ p ∈ done, p ∈ done ++ [(a, k)] := fun p hp => List.mem_append_left _ hp
  have hnew : (a, k) ∈ done ++ [(a, k)] := List.mem_append_right _ (List.mem_singleton.mpr rfl)
  constructor
  · apply EqvGen.mono
    rintro i j (hij | ⟨rfl, rfl⟩)
    · exact hij.mono hold
    · exact ⟨k, hnew, hold _ howner⟩
  · have hvia : ∀ {j}, (j, k) ∈ done → EqvGen (fun i j => Declared done i j ∨ (i = a ∧ j = owner)) a j := by
      intro j hj
      apply EqvGen.trans a owner j
      · exact EqvGen.rel a owner (Or.inr ⟨rfl, rfl⟩)
      · exact EqvGen.rel owner j (Or.inl ⟨k, howner, hj⟩)
    intro h
    induction h with
    | rel i j hij =>
      obtain hij | ⟨rfl, hj⟩ | ⟨rfl, hi⟩ | ⟨rfl, rfl⟩ := declared_concat hij
      · exact EqvGen.rel i j (Or.inl hij)
      · exact hvia hj
      · exact EqvGen.symm _ _ (hvia hi)
      · exact EqvGen.refl _
    | refl i => exact EqvGen.refl i
    | symm i j _ ih => exact EqvGen.symm i j ih
    | trans i j l _ _ hij hjl => exact EqvGen.trans i j l hij hjl

/-- A key that nobody has declared relates nobody. -/
theorem eqvGen_new {done : List (Fin n × String)} {a : Fin n} {k : String} (hnew : ∀ i, (i, k) ∉ done)
    (i j : Fin n) : EqvGen (Declared done) i j ↔ EqvGen (Declared (done ++ [(a, k)])) i j := by
  constructor
  · apply EqvGen.mono
    intro i j hij
    exact hij.mono fun p hp => List.mem_append_left _ hp
  · intro h
    induction h with
    | rel i j hij =>
      obtain hij | ⟨-, hj⟩ | ⟨-, hi⟩ | ⟨rfl, rfl⟩ := declared_concat hij
      · exact EqvGen.rel i j hij
      · exact absurd hj (hnew j)
      · exact absurd hi (hnew i)
      · exact EqvGen.refl _
    | refl i => exact EqvGen.refl i
    | symm i j _ ih => exact EqvGen.symm i j ih
    | trans i j l _ _ hij hjl => exact EqvGen.trans i j l hij hjl

theorem declareKey_spec {done : List (Fin n × String)} {st : Owners n} (h : Owned done st) (hfuel : n ≤ fuel)
    (i : Fin n) (k : String) : ∃ st', declareKey fuel i st k = some st' ∧ Owned (done ++ [(i, k)]) st' := by
  cases hlookup : st.keyOwner.lookup k with
  | some owner =>
    obtain ⟨parent', hunion, hrep⟩ := union_spec h.represents hfuel i owner
    refine ⟨{ st with parent := parent' }, by simp [declareKey, hlookup, hunion], ?_, ?_, ?_⟩
    · exact hrep.congr (eqvGen_owner (h.owner hlookup))
    · intro k' i' h'
      exact List.mem_append_left _ (h.owner h')
    · intro i' k' h'
      simp only [List.mem_append, List.mem_singleton, Prod.mk.injEq] at h'
      obtain h' | ⟨-, rfl⟩ := h'
      · exact h.owned h'
      · simp [hlookup]
  | none =>
    have hnew : ∀ j, (j, k) ∉ done := by
      intro j hj
      have := h.owned hj
      simp [hlookup] at this
    refine ⟨{ st with keyOwner := st.keyOwner.insert k i }, by simp [declareKey, hlookup], ?_, ?_, ?_⟩
    · exact h.represents.congr (eqvGen_new hnew)
    · intro k' i' h'
      by_cases hk : k' = k
      · subst hk
        rw [Finmap.lookup_insert, Option.some_inj] at h'
        subst h'
        simp
      · rw [Finmap.lookup_insert_of_ne _ hk] at h'
        exact List.mem_append_left _ (h.owner h')
    · intro i' k' h'
      by_cases hk : k' = k
      · subst hk
        simp
      · rw [Finmap.lookup_insert_of_ne _ hk]
        simp only [List.mem_append, List.mem_singleton, Prod.mk.injEq] at h'
        obtain h' | ⟨-, rfl⟩ := h'
        · exact h.owned h'
        · exact absurd rfl hk

theorem declareKeys_spec (hfuel : n ≤ fuel) (i : Fin n) : ∀ (keys : List String) {done : List (Fin n × String)}
    {st : Owners n}, Owned done st →
    ∃ st', keys.foldlM (declareKey fuel i) st = some st' ∧ Owned (done ++ keys.map fun k => (i, k)) st'
  | [], done, st, h => ⟨st, rfl, by simpa using h⟩
  | k :: keys, done, st, h => by
    obtain ⟨st₁, hkey, h₁⟩ := declareKey_spec h hfuel i k
    obtain ⟨st', hkeys, h'⟩ := declareKeys_spec hfuel i keys h₁
    refine ⟨st', by simp [List.foldlM_cons, hkey, hkeys], ?_⟩
    rw [List.map_cons, List.append_cons]
    exact h'

end

section
variable {fuel : Nat} {exposures : List Exposure}

/-- The pairs that a line declares. -/
def declares (exposures : List Exposure) (i : Fin exposures.length) : List (Fin exposures.length × String) :=
  (exposures.get i).keys.map fun k => (i, k)

theorem declareLine_spec (hfuel : exposures.length ≤ fuel) {done : List (Fin exposures.length × String)}
    {st : Owners exposures.length} (h : Owned done st) (i : Fin exposures.length) :
    ∃ st', declareLine fuel exposures st i = some st' ∧ Owned (done ++ declares exposures i) st' := by
  cases hkeys : (exposures.get i).correlated with
  | none =>
    refine ⟨st, by rw [declareLine, hkeys], ?_⟩
    rw [declares, Exposure.keys, hkeys]
    simpa using h
  | some keys =>
    obtain ⟨st', hfold, h'⟩ := declareKeys_spec hfuel i keys h
    refine ⟨st', by rw [declareLine, hkeys]; exact hfold, ?_⟩
    rw [declares, Exposure.keys, hkeys]
    exact h'

theorem declareLines_spec (hfuel : exposures.length ≤ fuel) : ∀ (lines : List (Fin exposures.length))
    {done : List (Fin exposures.length × String)} {st : Owners exposures.length}, Owned done st →
    ∃ st', lines.foldlM (declareLine fuel exposures) st = some st' ∧
      Owned (done ++ lines.flatMap (declares exposures)) st'
  | [], done, st, h => ⟨st, rfl, by simpa using h⟩
  | i :: lines, done, st, h => by
    obtain ⟨st₁, hline, h₁⟩ := declareLine_spec hfuel h i
    obtain ⟨st', hlines, h'⟩ := declareLines_spec hfuel lines h₁
    refine ⟨st', by simp [List.foldlM_cons, hline, hlines], ?_⟩
    rw [List.flatMap_cons, ← List.append_assoc]
    exact h'

/-- The lines share a key. -/
def SharesKey (exposures : List Exposure) (i j : Fin exposures.length) : Prop :=
  ∃ k, k ∈ (exposures.get i).keys ∧ k ∈ (exposures.get j).keys

/-- The pointers represent the lines that share a key. -/
theorem declareLines_represents (hfuel : exposures.length ≤ fuel) :
    ∃ st, declareLines fuel exposures = some st ∧ Represents st.parent (SharesKey exposures) := by
  obtain ⟨st, hlines, h⟩ := declareLines_spec hfuel (List.finRange exposures.length) owned_nil
  refine ⟨st, hlines, ?_⟩
  have hshares : Declared ([] ++ (List.finRange exposures.length).flatMap (declares exposures)) =
      SharesKey exposures := by
    funext i j
    simp [Declared, SharesKey, declares]
  rw [← hshares]
  exact h.represents

end

end WhaleIntelligence.Portfolio
