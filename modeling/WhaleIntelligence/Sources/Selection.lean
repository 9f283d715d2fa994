import Mathlib.Algebra.Order.Ring.Rat
import Mathlib.Data.List.Nodup
import Mathlib.Data.Rat.Floor
import Mathlib.Data.String.Basic
import WhaleIntelligence.Lib.Ranking
import WhaleIntelligence.Sources.Health

/- Which provider is asked: `select_provider`.

   The order of preference is encoded in a key of integers. A weight is scaled to
   thousandths and rounded, and from one on every weight has the same key; a cost is cut to
   millionths; and a latency that is not known has the key of the largest one. So a
   candidate may be overtaken by one that the order puts behind it, and the selection
   follows the order exactly where the first eligible candidate is not (`frozen_iff`). -/
namespace WhaleIntelligence.Sources
open WhaleIntelligence Ranking OrderDual

inductive CapabilityRole
  | mandatory | vendor | fallback
  deriving DecidableEq, Repr

inductive IneligibleReason
  | disabled | credentialAuthFailed | cooldown | circuitBreakerOpen | healthDown | outOfQuota | chainIdInvalid
  deriving DecidableEq, Repr

structure ProviderCandidate where
  sourceId : String
  capabilityRole : CapabilityRole
  healthState : SourceHealthState
  weight : NNRat
  latencyMs : Option UInt64
  costPerRequest : Option NNRat
  enabled : Bool
  credentialActive : Bool
  inCooldown : Bool
  breakerOpen : Bool
  hasQuota : Bool
  chainIdValid : Bool
  deriving DecidableEq

def ProviderCandidate.ineligibleReason (c : ProviderCandidate) : Option IneligibleReason :=
  if !c.enabled then some .disabled
  else if !c.credentialActive then some .credentialAuthFailed
  else if c.inCooldown then some .cooldown
  else if c.breakerOpen then some .circuitBreakerOpen
  else if c.healthState = .down || c.healthState = .disabled then some .healthDown
  else if !c.hasQuota then some .outOfQuota
  else if !c.chainIdValid then some .chainIdInvalid
  else none

def ProviderCandidate.eligible (c : ProviderCandidate) : Bool := c.ineligibleReason.isNone

/-! ## The key -/

/-- `u64::MAX`. -/
def maxU64 : Nat := 18446744073709551615

def roleRank : CapabilityRole → Nat
  | .mandatory => 0
  | .vendor => 1
  | .fallback => 2

/-- `(1000.0 - (weight * 1000.0).round()).max(0.0) as u64`. -/
def weightKey (weight : NNRat) : Nat := (max 0 (1000 - ⌊(weight : ℚ) * 1000 + 1 / 2⌋)).toNat

def latencyKey (latencyMs : Option UInt64) : Nat := (latencyMs.map UInt64.toNat).getD maxU64

/-- The cast of a float to `u64` cuts it and saturates. -/
def costKey (costPerRequest : Option NNRat) : Nat :=
  match costPerRequest with
  | some cost => min ⌊(cost : ℚ) * 1000000⌋.toNat maxU64
  | none => maxU64

abbrev RankKey := Nat ×ₗ Nat ×ₗ Nat ×ₗ Nat ×ₗ Nat ×ₗ String

def rankKey (c : ProviderCandidate) : RankKey :=
  toLex (roleRank c.capabilityRole, toLex (255 - c.healthState.healthRank, toLex (weightKey c.weight,
    toLex (latencyKey c.latencyMs, toLex (costKey c.costPerRequest, c.sourceId)))))

def selectProvider (candidates : List ProviderCandidate) : Option ProviderCandidate :=
  (candidates.filter ProviderCandidate.eligible).argmin rankKey

/-! ## The order of preference -/

/-- What is not known is the worst. -/
def known {α : Type} (x : Option α) : WithTop α := x

abbrev Preference := Nat ×ₗ Natᵒᵈ ×ₗ NNRatᵒᵈ ×ₗ WithTop Nat ×ₗ WithTop NNRat ×ₗ String

/-- Role, then health and weight from the greatest down, then latency and cost, then the name. -/
def preference (c : ProviderCandidate) : Preference :=
  toLex (roleRank c.capabilityRole, toLex (toDual c.healthState.healthRank, toLex (toDual c.weight,
    toLex (known (c.latencyMs.map UInt64.toNat), toLex (known c.costPerRequest, c.sourceId)))))

/-- The selection is the one the order of preference makes. -/
structure Frozen (candidates : List ProviderCandidate) : Prop where
  none_iff : selectProvider candidates = none ↔ ∀ c ∈ candidates, c.ineligibleReason ≠ none
  first : ∀ r, selectProvider candidates = some r → (r ∈ candidates ∧ r.ineligibleReason = none) ∧
    ∀ c ∈ candidates, c.ineligibleReason = none → ¬preference c < preference r
  perm : ∀ candidates', candidates'.Perm candidates → selectProvider candidates' = selectProvider candidates

/-- The second candidate is not preferred to the first one, and has the smaller key. -/
def Overtaken (b c : ProviderCandidate) : Prop :=
  roleRank b.capabilityRole = roleRank c.capabilityRole ∧ b.healthState.healthRank = c.healthState.healthRank ∧
    -- their weights come to one key
    (c.weight < b.weight ∧ weightKey b.weight = weightKey c.weight ∧
        toLex (latencyKey c.latencyMs, toLex (costKey c.costPerRequest, c.sourceId)) <
          toLex (latencyKey b.latencyMs, toLex (costKey b.costPerRequest, b.sourceId)) ∨
      b.weight = c.weight ∧
        -- a latency is not known, and the other one is the largest
        (b.latencyMs = some 18446744073709551615 ∧ c.latencyMs = none ∧
            toLex (costKey c.costPerRequest, c.sourceId) < toLex (costKey b.costPerRequest, b.sourceId) ∨
          b.latencyMs = c.latencyMs ∧
            -- their costs come to one key
            known b.costPerRequest < known c.costPerRequest ∧ costKey b.costPerRequest = costKey c.costPerRequest ∧
            c.sourceId < b.sourceId))

section
variable {candidates : List ProviderCandidate} {b c : ProviderCandidate}

theorem eligible_iff : c.eligible = true ↔ c.ineligibleReason = none := Option.isNone_iff_eq_none

theorem healthRank_le (s : SourceHealthState) : s.healthRank ≤ 4 := by
  cases s <;> decide

/-! ## The encoding -/

def encodeWeight (w : NNRatᵒᵈ) : Nat := weightKey (ofDual w)

def encodeLatency (l : WithTop Nat) : Nat := min (l.untopD maxU64) maxU64

def encodeCost (c : WithTop NNRat) : Nat := costKey c

theorem encodeWeight_mono : Monotone encodeWeight := by
  intro w w' h
  have hle : ((ofDual w' : NNRat) : ℚ) ≤ (ofDual w : NNRat) := NNRat.coe_le_coe.mpr h
  have hfloor : ⌊((ofDual w' : NNRat) : ℚ) * 1000 + 1 / 2⌋ ≤ ⌊((ofDual w : NNRat) : ℚ) * 1000 + 1 / 2⌋ := by
    apply Int.floor_mono
    linarith
  unfold encodeWeight weightKey
  omega

theorem encodeLatency_mono : Monotone encodeLatency := by
  intro l l' h
  unfold encodeLatency
  cases l' with
  | top => simp
  | coe l' =>
    cases l with
    | top => exact absurd h (by simp)
    | coe l => exact min_le_min_right _ (WithTop.coe_le_coe.mp h)

theorem encodeCost_mono : Monotone encodeCost := by
  intro c c' h
  cases c' with
  | top =>
    cases c with
    | top => exact le_rfl
    | coe c => exact min_le_right _ _
  | coe c' =>
    cases c with
    | top => exact absurd h (by simp)
    | coe c =>
      have hle : (c : ℚ) ≤ c' := NNRat.coe_le_coe.mpr (WithTop.coe_le_coe.mp h)
      have hfloor : ⌊(c : ℚ) * 1000000⌋ ≤ ⌊(c' : ℚ) * 1000000⌋ := by
        apply Int.floor_mono
        linarith
      exact min_le_min_right _ (Int.toNat_le_toNat hfloor)

def encodeHealth (rank : Natᵒᵈ) : Nat := 255 - ofDual rank

theorem encodeHealth_mono : Monotone encodeHealth := fun _ _ h => Nat.sub_le_sub_left h 255

def encode : Preference → RankKey :=
  encodeLex id (encodeLex encodeHealth (encodeLex encodeWeight (encodeLex encodeLatency (encodeLex encodeCost id))))

theorem encodeLatency_known (l : Option UInt64) : encodeLatency (known (l.map UInt64.toNat)) = latencyKey l := by
  cases l with
  | none => rfl
  | some l => exact min_eq_left (Nat.le_of_lt_succ l.toNat_lt)

theorem encode_rest (c : ProviderCandidate) : encodeLex encodeLatency (encodeLex encodeCost id)
      (toLex (known (c.latencyMs.map UInt64.toNat), toLex (known c.costPerRequest, c.sourceId))) =
    toLex (latencyKey c.latencyMs, toLex (costKey c.costPerRequest, c.sourceId)) := by
  unfold encodeLex
  simp only [ofLex_toLex, encodeLatency_known]
  rfl

theorem rankKey_eq (c : ProviderCandidate) : rankKey c = encode (preference c) := by
  rw [rankKey, ← encode_rest]
  rfl

/-- A latency that is overtaken is the largest one, by one that is not known. -/
theorem latency_overtaken {l l' : Option UInt64} :
    known (l.map UInt64.toNat) < known (l'.map UInt64.toNat) ∧ latencyKey l = latencyKey l' ↔
      l = some 18446744073709551615 ∧ l' = none := by
  cases l with
  | none =>
    refine iff_of_false (fun h => ?_) (fun h => by cases h.1)
    exact absurd h.1 (not_lt.mpr le_top)
  | some l =>
    have hl := l.toNat_lt
    cases l' with
    | none =>
      have hlt : known ((some l).map UInt64.toNat) < known (none : Option Nat) := WithTop.coe_lt_top _
      have hmax : some l = some 18446744073709551615 ↔ l.toNat = maxU64 := by
        rw [Option.some.injEq, ← UInt64.toNat_inj]
        exact Iff.rfl
      rw [hmax]
      exact ⟨fun h => ⟨h.2, rfl⟩, fun h => ⟨hlt, h.1⟩⟩
    | some l' =>
      refine iff_of_false (fun h => ?_) (fun h => by cases h.2)
      have hlt : l.toNat < l'.toNat := WithTop.coe_lt_coe.mp h.1
      exact absurd h.2 hlt.ne

/-- The encoding lets a candidate be overtaken by these, and by no other. -/
theorem overtakes_preference (b c : ProviderCandidate) :
    Overtakes encode (preference b) (preference c) ↔ Overtaken b c := by
  have hhealth : toDual b.healthState.healthRank < toDual c.healthState.healthRank →
      encodeHealth (toDual b.healthState.healthRank) ≠ encodeHealth (toDual c.healthState.healthRank) := by
    intro hlt heq
    have hrank : c.healthState.healthRank < b.healthState.healthRank := hlt
    have hkeys : 255 - b.healthState.healthRank = 255 - c.healthState.healthRank := heq
    have hle := healthRank_le b.healthState
    omega
  have hcost : Overtakes (encodeLex encodeCost id) (toLex (known b.costPerRequest, b.sourceId))
      (toLex (known c.costPerRequest, c.sourceId)) ↔
        known b.costPerRequest < known c.costPerRequest ∧ costKey b.costPerRequest = costKey c.costPerRequest ∧
          c.sourceId < b.sourceId := by
    rw [overtakes_iff encodeCost_mono]
    exact or_iff_left fun h => not_overtakes_id _ _ h.2
  have hsame : known (b.latencyMs.map UInt64.toNat) = known (c.latencyMs.map UInt64.toNat) ↔
      b.latencyMs = c.latencyMs :=
    (Option.map_injective fun _ _ h => UInt64.toNat_inj.mp h).eq_iff
  unfold encode preference
  rw [overtakes_of_ne monotone_id fun h => h.ne, overtakes_of_ne encodeHealth_mono hhealth,
    overtakes_iff encodeWeight_mono, encode_rest, encode_rest, overtakes_iff encodeLatency_mono, hcost,
    encodeLatency_known, encodeLatency_known, ← and_assoc (a := known _ < known _), latency_overtaken, and_assoc, hsame]
  exact Iff.rfl

theorem preference_inj (hids : (candidates.map ProviderCandidate.sourceId).Nodup) (hb : b ∈ candidates)
    (hc : c ∈ candidates) (h : preference b = preference c) : b = c := by
  have hid : b.sourceId = c.sourceId :=
    congrArg (fun p : Preference => (ofLex (ofLex (ofLex (ofLex (ofLex p).2).2).2).2).2) h
  exact List.inj_on_of_nodup_map hids hb hc hid

theorem rankKey_inj (hids : (candidates.map ProviderCandidate.sourceId).Nodup) (hb : b ∈ candidates)
    (hc : c ∈ candidates) (h : rankKey b = rankKey c) : b = c := by
  have hid : b.sourceId = c.sourceId :=
    congrArg (fun p : RankKey => (ofLex (ofLex (ofLex (ofLex (ofLex p).2).2).2).2).2) h
  exact List.inj_on_of_nodup_map hids hb hc hid

theorem mem_eligible : c ∈ candidates.filter ProviderCandidate.eligible ↔
    c ∈ candidates ∧ c.ineligibleReason = none := by
  rw [List.mem_filter, eligible_iff]

/-- The first candidate has a smaller key than another one where it is not overtaken by it. -/
theorem rankKey_lt_iff (hids : (candidates.map ProviderCandidate.sourceId).Nodup) (hb : b ∈ candidates)
    (hc : c ∈ candidates) (hfirst : ¬preference c < preference b) : rankKey c < rankKey b ↔ Overtaken b c := by
  rw [← overtakes_preference, rankKey_eq, rankKey_eq]
  refine ⟨fun h => ⟨lt_of_le_of_ne (not_lt.mp hfirst) fun heq => ?_, h⟩, fun h => h.2⟩
  rw [preference_inj hids hb hc heq] at h
  exact lt_irrefl _ h

theorem selectProvider_first_iff (hids : (candidates.map ProviderCandidate.sourceId).Nodup) :
    (∀ r, selectProvider candidates = some r →
        ∀ c ∈ candidates, c.ineligibleReason = none → ¬preference c < preference r) ↔
      ∀ b ∈ candidates, b.ineligibleReason = none →
        (∀ c ∈ candidates, c.ineligibleReason = none → ¬preference c < preference b) →
          ∀ c ∈ candidates, c.ineligibleReason = none → ¬Overtaken b c := by
  have hkey : ∀ b ∈ candidates.filter ProviderCandidate.eligible, ∀ c ∈ candidates.filter ProviderCandidate.eligible,
      rankKey b = rankKey c → b = c := fun b hb c hc =>
    rankKey_inj hids (List.mem_filter.mp hb).1 (List.mem_filter.mp hc).1
  have hord : ∀ b ∈ candidates.filter ProviderCandidate.eligible, ∀ c ∈ candidates.filter ProviderCandidate.eligible,
      preference b = preference c → b = c := fun b hb c hc =>
    preference_inj hids (List.mem_filter.mp hb).1 (List.mem_filter.mp hc).1
  have hfirst := argmin_first_iff hkey hord
  simp only [mem_eligible, and_imp] at hfirst
  refine hfirst.trans (forall₄_congr fun b hb heligible hleast => ?_)
  refine forall₃_congr fun c hc hceligible => ?_
  rw [rankKey_lt_iff hids hb hc (hleast c hc hceligible)]

end

/-- The selection is the one of the order exactly where no eligible candidate overtakes the first eligible one. -/
theorem frozen_iff (candidates : List ProviderCandidate) (hids : (candidates.map ProviderCandidate.sourceId).Nodup) :
    Frozen candidates ↔ ∀ b ∈ candidates, b.ineligibleReason = none →
      (∀ c ∈ candidates, c.ineligibleReason = none → ¬preference c < preference b) →
        ∀ c ∈ candidates, c.ineligibleReason = none → ¬Overtaken b c := by
  rw [← selectProvider_first_iff hids]
  constructor
  · intro h r hr
    exact (h.first r hr).2
  · intro h
    refine ⟨?_, fun r hr => ⟨mem_eligible.mp (List.argmin_mem hr), h r hr⟩, fun candidates' hperm => ?_⟩
    · rw [selectProvider, List.argmin_eq_none, List.filter_eq_nil_iff]
      simp only [eligible_iff]
    · apply argmin_perm _ (hperm.filter _)
      intro b hb c hc
      exact rankKey_inj hids (List.mem_filter.mp hb).1 (List.mem_filter.mp hc).1

def candidate (sourceId : String) (weight : NNRat) : ProviderCandidate where
  sourceId
  capabilityRole := .vendor
  healthState := .up
  weight
  latencyMs := some 100
  costPerRequest := some 1
  enabled := true
  credentialActive := true
  inCooldown := false
  breakerOpen := false
  hasQuota := true
  chainIdValid := true

theorem distinct_weights_frozen : Frozen [candidate "a" (1 / 2), candidate "b" (3 / 4)] ↔
    ∀ b ∈ [candidate "a" (1 / 2), candidate "b" (3 / 4)], b.ineligibleReason = none →
      (∀ c ∈ [candidate "a" (1 / 2), candidate "b" (3 / 4)], c.ineligibleReason = none →
        ¬preference c < preference b) →
          ∀ c ∈ [candidate "a" (1 / 2), candidate "b" (3 / 4)], c.ineligibleReason = none → ¬Overtaken b c :=
  frozen_iff _ (by decide)

/-- A weight of one has the key of a greater one. -/
theorem greater_weight_overtaken : ¬Frozen [candidate "a" 1, candidate "b" 2] := by
  intro h
  have hselected : selectProvider [candidate "a" 1, candidate "b" 2] = some (candidate "a" 1) := by decide +kernel
  refine (h.first _ hselected).2 (candidate "b" 2) (by simp) (by decide) ?_
  decide +kernel

end WhaleIntelligence.Sources
