import Mathlib.Algebra.Order.Field.Basic
import Mathlib.Algebra.Order.Group.MinMax
import Mathlib.Algebra.Order.Ring.Rat
import Mathlib.Tactic.FieldSimp
import Mathlib.Tactic.Linarith
import Mathlib.Tactic.Ring
import WhaleIntelligence.Lib.FixedPoint

/- The values of decimal numbers, and the error of a computation with them.

   A result that is within a bound is rounded at no scale below one that the bound
   leaves room for (`nearest_scale`), so that it is off by at most half a step of that
   scale, and not at all where the exact result has no more digits. `Near e a q` says
   that the number is within `e` of the exact value. The errors of the operands and the
   half step add up (`add_near`, `mul_near`, `div_near`), and a clamp adds nothing. -/
namespace FixedPoint

/-- What is rounded is within a half. -/
theorem roundHalfEven_near (n : Int) {d : Nat} (hd : 0 < d) : |2 * (roundHalfEven n d * d - n)| ≤ d := by
  have hd' : (0 : Int) < d := by omega
  have hdiv := Int.mul_ediv_add_emod n d
  have hrest := Int.emod_nonneg n hd'.ne'
  have hless := Int.emod_lt_of_pos n hd'
  rw [abs_le]
  unfold roundHalfEven
  split
  · rename_i hdown
    rw [Int.mul_comm (n / d)]
    omega
  · rename_i hup
    rw [Int.add_mul, Int.mul_comm (n / d)]
    omega

theorem roundHalfEven_of_dvd {n : Int} {d : Nat} (hd : 0 < d) (h : (d : Int) ∣ n) : roundHalfEven n d = n / d := by
  rw [roundHalfEven, Int.emod_eq_zero_of_dvd h]
  exact if_pos (Or.inl (by omega))

namespace Fixed

variable {limit maxScale : Nat}

/-! ## Operations -/

def value (a : Fixed limit maxScale) : Rat := a.coefficient / 10 ^ a.scale

/-- The sum, at the larger of the two scales where it fits there. -/
def add (a b : Fixed limit maxScale) : Option (Fixed limit maxScale) :=
  nearest (a.coefficient * 10 ^ (max a.scale b.scale - a.scale) + b.coefficient * 10 ^ (max a.scale b.scale - b.scale))
    (10 ^ max a.scale b.scale) (max a.scale b.scale)

def neg (a : Fixed limit maxScale) : Fixed limit maxScale :=
  ⟨-a.coefficient, a.scale, by rw [Int.natAbs_neg]; exact a.fits, a.scaled⟩

def sub (a b : Fixed limit maxScale) : Option (Fixed limit maxScale) := a.add b.neg

def abs (a : Fixed limit maxScale) : Fixed limit maxScale :=
  ⟨a.coefficient.natAbs, a.scale, by rw [Int.natAbs_natCast]; exact a.fits, a.scaled⟩

def clamp (a lo hi : Fixed limit maxScale) : Fixed limit maxScale :=
  if a.value < lo.value then lo else if hi.value < a.value then hi else a

/-- The whole part of a number that is not negative and has 32 bits. -/
def toU32 (a : Fixed limit maxScale) : Option Nat :=
  if 0 ≤ a.coefficient ∧ a.coefficient / 10 ^ a.scale < 2 ^ 32 then some (a.coefficient / 10 ^ a.scale).toNat else none

section
variable {a b c lo hi : Fixed limit maxScale}

theorem pow_pos' (s : Nat) : (0 : Rat) < 10 ^ s := by positivity

@[simp] theorem neg_value (a : Fixed limit maxScale) : a.neg.value = -a.value := by
  simp [value, neg, neg_div]

@[simp] theorem abs_value (a : Fixed limit maxScale) : a.abs.value = |a.value| := by
  rw [value, value, abs_div, abs_of_pos (pow_pos' a.scale)]
  simp [abs]

theorem ofInt_value {n : Int} (h : ofInt n = some a) : a.value = n := by
  unfold ofInt at h
  split at h
  · obtain rfl := Option.some.inj h
    simp [value]
  · cases h

theorem ofInt_fits {n : Int} (h : n.natAbs < limit) :
    ∃ a : Fixed limit maxScale, ofInt n = some a ∧ a.value = n := by
  have hsome : (ofInt n : Option (Fixed limit maxScale)) = some ⟨n, 0, h, Nat.zero_le _⟩ := dif_pos h
  exact ⟨_, hsome, ofInt_value hsome⟩

theorem clamp_value (h : lo.value ≤ hi.value) : (a.clamp lo hi).value = max lo.value (min a.value hi.value) := by
  unfold clamp
  split
  · rename_i hlow
    rw [min_eq_left (by linarith), max_eq_left hlow.le]
  · rename_i hlow
    rw [not_lt] at hlow
    split
    · rename_i hhigh
      rw [min_eq_right hhigh.le, max_eq_right h]
    · rename_i hhigh
      rw [min_eq_left (not_lt.mp hhigh), max_eq_right hlow]

/-- The whole part is the floor. -/
theorem toU32_floor (h : 0 ≤ a.value) (hsmall : a.value < 2 ^ 32) :
    ∃ n, a.toU32 = some n ∧ n ≤ a.value ∧ a.value < n + 1 := by
  have hpow : (0 : Int) < 10 ^ a.scale := by positivity
  have hcoefficient : 0 ≤ a.coefficient := by
    by_contra hneg
    have hlt : (a.coefficient : Rat) < 0 := by exact_mod_cast not_le.mp hneg
    exact absurd h (not_le.mpr (div_neg_of_neg_of_pos hlt (pow_pos' _)))
  have hquot : 0 ≤ a.coefficient / 10 ^ a.scale := Int.ediv_nonneg hcoefficient hpow.le
  have hfloor : ((a.coefficient / 10 ^ a.scale : Int) : Rat) ≤ a.value := by
    rw [value, le_div_iff₀ (pow_pos' _)]
    exact_mod_cast Int.ediv_mul_le _ hpow.ne'
  have hceil : a.value < (a.coefficient / 10 ^ a.scale : Int) + 1 := by
    rw [value, div_lt_iff₀ (pow_pos' _)]
    exact_mod_cast Int.lt_ediv_add_one_mul_self _ hpow
  have hbound : a.coefficient / 10 ^ a.scale < 2 ^ 32 := by
    have : ((a.coefficient / 10 ^ a.scale : Int) : Rat) < 2 ^ 32 := lt_of_le_of_lt hfloor hsmall
    exact_mod_cast this
  have hcast : (((a.coefficient / 10 ^ a.scale).toNat : Nat) : Rat) = (a.coefficient / 10 ^ a.scale : Int) := by
    exact_mod_cast Int.toNat_of_nonneg hquot
  refine ⟨_, if_pos ⟨hcoefficient, hbound⟩, ?_, ?_⟩
  · rw [hcast]
    exact hfloor
  · rw [hcast]
    exact hceil

end

/-! ## Rounding -/

section
variable {num : Int} {den k m : Nat}

/-- A result within the bound is rounded at the scale that the bound leaves room for,
    or at a larger one, or at the largest that is tried. -/
theorem nearest_scale (scale : Nat) (hk : k ≤ maxScale) (hm : m * 10 ^ k < limit) (hden : 0 < den)
    (h : num.natAbs ≤ m * den) : ∃ a : Fixed limit maxScale, nearest num den scale = some a ∧ min k scale ≤ a.scale ∧
      a.scale ≤ scale ∧ a.coefficient = roundHalfEven (num * 10 ^ a.scale) den := by
  -- at a scale up to `k` the coefficient is within its bound
  have hfits : ∀ s ≤ k, (roundHalfEven (num * 10 ^ s) den).natAbs < limit ∧ s ≤ maxScale := by
    intro s hs
    refine ⟨?_, by omega⟩
    have hnum : (num * 10 ^ s).natAbs ≤ m * 10 ^ s * den := by
      calc (num * 10 ^ s).natAbs = num.natAbs * 10 ^ s := by rw [Int.natAbs_mul, Int.natAbs_pow]; rfl
        _ ≤ m * den * 10 ^ s := Nat.mul_le_mul_right _ h
        _ = m * 10 ^ s * den := by ring
    calc (roundHalfEven (num * 10 ^ s) den).natAbs
        ≤ m * 10 ^ s := roundHalfEven_natAbs_le hden hnum
      _ ≤ m * 10 ^ k := Nat.mul_le_mul_left _ (Nat.pow_le_pow_right (by omega) hs)
      _ < limit := hm
  induction scale with
  | zero =>
    rw [nearest, atScale, dif_pos (hfits 0 (Nat.zero_le _))]
    exact ⟨_, rfl, by omega, le_refl _, rfl⟩
  | succ s ih =>
    rw [nearest, atScale]
    by_cases hs : (roundHalfEven (num * 10 ^ (s + 1)) den).natAbs < limit ∧ s + 1 ≤ maxScale
    · rw [dif_pos hs]
      exact ⟨_, rfl, Nat.min_le_right _ _, le_refl _, rfl⟩
    · have hlarge : k < s + 1 := by
        by_contra hsmall
        exact hs (hfits (s + 1) (by omega))
      rw [dif_neg hs, Option.none_or]
      obtain ⟨a, hsome, hlow, hhigh, hround⟩ := ih
      exact ⟨a, hsome, by omega, by omega, hround⟩

/-- Half a step of a scale. -/
def halfStep (k : Nat) : Rat := 1 / (2 * 10 ^ k)

/-- The number is within the error of the exact value. -/
def Near (e : Rat) (a : Fixed limit maxScale) (q : Rat) : Prop := |a.value - q| ≤ e

theorem near_self (a : Fixed limit maxScale) : Near 0 a a.value := by
  rw [Near, sub_self, abs_zero]

theorem near_mono {e e' : Rat} {a : Fixed limit maxScale} {q : Rat} (h : Near e a q) (he : e ≤ e') : Near e' a q :=
  le_trans h he

theorem near_bounds {e : Rat} {a : Fixed limit maxScale} {q : Rat} (h : Near e a q) :
    q - e ≤ a.value ∧ a.value ≤ q + e := by
  have hsplit := abs_le.mp h
  constructor <;> linarith [hsplit.1, hsplit.2]

/-- A result that has no more digits than there is room for is not rounded. -/
theorem nearest_exact (scale : Nat) (hk : k ≤ maxScale) (hm : m * 10 ^ k < limit) (hden : 0 < den)
    (h : num.natAbs ≤ m * den) (hdvd : (den : Int) ∣ num * 10 ^ min k scale) :
    ∃ a : Fixed limit maxScale, nearest num den scale = some a ∧ a.value = num / den := by
  obtain ⟨a, hsome, hlow, -, hround⟩ := nearest_scale scale hk hm hden h
  have hden' : (den : Rat) ≠ 0 := by exact_mod_cast hden.ne'
  obtain ⟨n, hn⟩ : (den : Int) ∣ num * 10 ^ a.scale := hdvd.trans (mul_dvd_mul_left _ (pow_dvd_pow _ hlow))
  refine ⟨a, hsome, ?_⟩
  have hcoefficient : a.coefficient = n := by
    rw [hround, roundHalfEven_of_dvd hden ⟨n, hn⟩, hn, Int.mul_ediv_cancel_left _ (by omega)]
  have hn' : (num : Rat) * 10 ^ a.scale = den * n := by exact_mod_cast hn
  rw [value, hcoefficient, div_eq_div_iff (pow_pos' _).ne' hden', hn', mul_comm]

/-- A rounded result is within half a step of the exact one. -/
theorem nearest_near (scale : Nat) (hk : k ≤ maxScale) (hm : m * 10 ^ k < limit) (hden : 0 < den)
    (h : num.natAbs ≤ m * den) (hexact : scale < k → den = 10 ^ scale) :
    ∃ a : Fixed limit maxScale, nearest num den scale = some a ∧ Near (halfStep k) a (num / den) := by
  by_cases hscale : scale < k
  · -- the whole result has that many digits
    have hdvd : (den : Int) ∣ num * 10 ^ min k scale := by
      rw [hexact hscale, Nat.min_eq_right hscale.le]
      push_cast
      exact Dvd.intro_left _ rfl
    obtain ⟨a, hsome, hvalue⟩ := nearest_exact scale hk hm hden h hdvd
    refine ⟨a, hsome, ?_⟩
    rw [Near, hvalue, sub_self, abs_zero, halfStep]
    positivity
  · obtain ⟨a, hsome, hlow, hhigh, hround⟩ := nearest_scale scale hk hm hden h
    refine ⟨a, hsome, ?_⟩
    have hden' : (0 : Rat) < den := by exact_mod_cast hden
    have hpow := pow_pos' a.scale
    have hclose := roundHalfEven_near (num * 10 ^ a.scale) hden
    rw [← hround] at hclose
    have hclose' : |2 * ((a.coefficient : Rat) * den - num * 10 ^ a.scale)| ≤ den := by exact_mod_cast hclose
    have heq : a.value - num / den =
        2 * ((a.coefficient : Rat) * den - num * 10 ^ a.scale) / (2 * 10 ^ a.scale * den) := by
      rw [value]
      field_simp
    rw [Near, heq, abs_div, abs_of_pos (by positivity : (0 : Rat) < 2 * 10 ^ a.scale * den)]
    calc |2 * ((a.coefficient : Rat) * den - num * 10 ^ a.scale)| / (2 * 10 ^ a.scale * den)
        ≤ den / (2 * 10 ^ a.scale * den) := div_le_div_of_nonneg_right hclose' (by positivity)
      _ = 1 / (2 * 10 ^ a.scale) := by field_simp
      _ ≤ halfStep k := by
        rw [halfStep]
        apply one_div_le_one_div_of_le (by positivity)
        have := pow_le_pow_right₀ (by norm_num : (1 : Rat) ≤ 10) (show k ≤ a.scale by omega)
        linarith

theorem natAbs_le_of_abs_le (hden : 0 < den) (h : |(num : Rat) / den| ≤ m) : num.natAbs ≤ m * den := by
  have hden' : (0 : Rat) < den := by exact_mod_cast hden
  rw [abs_div, abs_of_pos hden', div_le_iff₀ hden'] at h
  have hcast : ((num.natAbs : Nat) : Rat) = |(num : Rat)| := by rw [Nat.cast_natAbs, Int.cast_abs]
  rw [← hcast] at h
  exact_mod_cast h

end

/-! ## Errors -/

section
variable {k m : Nat} {a b c lo hi : Fixed limit maxScale} {e e' p q : Rat}

theorem add_exact (a b : Fixed limit maxScale) :
    ((a.coefficient * 10 ^ (max a.scale b.scale - a.scale) +
      b.coefficient * 10 ^ (max a.scale b.scale - b.scale) : Int) : Rat) / (10 ^ max a.scale b.scale : Nat) =
      a.value + b.value := by
  have hpad : ∀ c : Fixed limit maxScale, c.scale ≤ max a.scale b.scale →
      ((c.coefficient * 10 ^ (max a.scale b.scale - c.scale) : Int) : Rat) / (10 ^ max a.scale b.scale : Nat) =
        c.value := by
    intro c hc
    obtain ⟨n, hn⟩ := Nat.exists_eq_add_of_le hc
    rw [hn, Nat.add_sub_cancel_left, value]
    push_cast
    rw [pow_add]
    field_simp
  rw [← hpad a (Nat.le_max_left _ _), ← hpad b (Nat.le_max_right _ _), ← add_div]
  push_cast
  rfl

theorem mul_exact (a b : Fixed limit maxScale) :
    ((a.coefficient * b.coefficient : Int) : Rat) / (10 ^ (a.scale + b.scale) : Nat) = a.value * b.value := by
  rw [value, value, div_mul_div_comm, ← pow_add]
  push_cast
  rfl

theorem div_exact (a : Fixed limit maxScale) (hb : b.coefficient ≠ 0) :
    ((a.coefficient * b.coefficient.sign * 10 ^ b.scale : Int) : Rat) / (b.coefficient.natAbs * 10 ^ a.scale : Nat) =
      a.value / b.value := by
  have habs : (b.coefficient.natAbs : Rat) = b.coefficient * b.coefficient.sign := by
    have hmul := congrArg (Int.cast : Int → Rat) (Int.mul_sign_self b.coefficient)
    rw [Int.cast_mul, Int.cast_natCast] at hmul
    exact hmul.symm
  have hsign : ((b.coefficient.sign : Int) : Rat) ≠ 0 := by
    have : b.coefficient.sign ≠ 0 := fun h => hb (Int.sign_eq_zero_iff_zero.mp h)
    exact_mod_cast this
  have hb' : (b.coefficient : Rat) ≠ 0 := by exact_mod_cast hb
  rw [value, value]
  push_cast
  rw [habs]
  field_simp

theorem near_trans {r : Rat} (h : Near e' c r) (hr : |r - q| ≤ e) : Near (e + e') c q := by
  have hsplit : c.value - q = (r - q) + (c.value - r) := by ring
  rw [Near, hsplit]
  exact (abs_add_le _ _).trans (add_le_add hr h)

variable (hk : k ≤ maxScale) (hm : m * 10 ^ k < limit)
include hk hm

theorem add_near (ha : Near e a p) (hb : Near e' b q) (hfit : |p + q| + (e + e') ≤ m) :
    ∃ c, a.add b = some c ∧ Near (e + e' + halfStep k) c (p + q) := by
  have herror : |a.value + b.value - (p + q)| ≤ e + e' := by
    calc |a.value + b.value - (p + q)| = |(a.value - p) + (b.value - q)| := by congr 1; ring
      _ ≤ |a.value - p| + |b.value - q| := abs_add_le _ _
      _ ≤ e + e' := add_le_add ha hb
  have hsize : |a.value + b.value| ≤ m := by
    have := abs_sub_abs_le_abs_sub (a.value + b.value) (p + q)
    linarith
  have hden : 0 < 10 ^ max a.scale b.scale := by positivity
  rw [← add_exact] at hsize
  obtain ⟨c, hc, hnear⟩ := nearest_near (max a.scale b.scale) hk hm hden
    (natAbs_le_of_abs_le hden hsize) (fun _ => rfl)
  rw [add_exact] at hnear
  exact ⟨c, hc, near_trans hnear herror⟩

theorem sub_near (ha : Near e a p) (hb : Near e' b q) (hfit : |p - q| + (e + e') ≤ m) :
    ∃ c, a.sub b = some c ∧ Near (e + e' + halfStep k) c (p - q) := by
  have hneg : Near e' b.neg (-q) := by
    rw [Near, neg_value, neg_sub_neg, abs_sub_comm]
    exact hb
  rw [sub_eq_add_neg] at hfit ⊢
  exact add_near hk hm ha hneg hfit

/-- The product with a number that is known exactly. -/
theorem mul_near (ha : Near e a p) (hb : b.value = q) (hfit : |p * q| + e * |q| ≤ m) :
    ∃ c, a.mul b = some c ∧ Near (e * |q| + halfStep k) c (p * q) := by
  have herror : |a.value * b.value - p * q| ≤ e * |q| := by
    calc |a.value * b.value - p * q| = |a.value - p| * |q| := by rw [hb, ← sub_mul, abs_mul]
      _ ≤ e * |q| := mul_le_mul_of_nonneg_right ha (abs_nonneg q)
  have hsize : |a.value * b.value| ≤ m := by
    have := abs_sub_abs_le_abs_sub (a.value * b.value) (p * q)
    linarith
  have hden : 0 < 10 ^ (a.scale + b.scale) := by positivity
  rw [← mul_exact] at hsize
  obtain ⟨c, hc, hnear⟩ := nearest_near (a.scale + b.scale) hk hm hden
    (natAbs_le_of_abs_le hden hsize) (fun _ => rfl)
  rw [mul_exact] at hnear
  exact ⟨c, hc, near_trans hnear herror⟩

/-- The quotient by a number that is known exactly. -/
theorem div_near (ha : Near e a p) (hb : b.value = q) (hq : q ≠ 0) (hfit : |p / q| + e / |q| ≤ m) :
    ∃ c, a.div b = some c ∧ Near (e / |q| + halfStep k) c (p / q) := by
  have hcoefficient : b.coefficient ≠ 0 := by
    intro hzero
    apply hq
    rw [← hb, value, hzero]
    simp
  have herror : |a.value / b.value - p / q| ≤ e / |q| := by
    calc |a.value / b.value - p / q| = |a.value - p| / |q| := by rw [hb, ← sub_div, abs_div]
      _ ≤ e / |q| := div_le_div_of_nonneg_right ha (abs_nonneg q)
  have hsize : |a.value / b.value| ≤ m := by
    have := abs_sub_abs_le_abs_sub (a.value / b.value) (p / q)
    linarith
  have hden : 0 < b.coefficient.natAbs * 10 ^ a.scale :=
    Nat.mul_pos (Int.natAbs_pos.mpr hcoefficient) (by positivity)
  rw [← div_exact a hcoefficient] at hsize
  obtain ⟨c, hc, hnear⟩ := nearest_near maxScale hk hm hden
    (natAbs_le_of_abs_le hden hsize) (fun hlt => absurd hk (by omega))
  rw [div_exact a hcoefficient] at hnear
  refine ⟨c, ?_, near_trans hnear herror⟩
  rw [div, if_neg hcoefficient]
  exact hc

/-- The sum of numbers whose digits there is room for. -/
theorem add_exactly (hscale : max a.scale b.scale ≤ k) (hfit : |a.value + b.value| ≤ m) :
    ∃ c, a.add b = some c ∧ c.value = a.value + b.value := by
  have hden : 0 < 10 ^ max a.scale b.scale := by positivity
  rw [← add_exact] at hfit ⊢
  refine nearest_exact _ hk hm hden (natAbs_le_of_abs_le hden hfit) ?_
  rw [Nat.min_eq_right hscale]
  push_cast
  exact Dvd.intro_left _ rfl

/-- A quotient whose digits there is room for. -/
theorem div_exactly (hb : b.coefficient ≠ 0) (hfit : |a.value / b.value| ≤ m) (z : Int)
    (hz : a.value / b.value * 10 ^ k = z) : ∃ c, a.div b = some c ∧ c.value = a.value / b.value := by
  have hden : 0 < b.coefficient.natAbs * 10 ^ a.scale := Nat.mul_pos (Int.natAbs_pos.mpr hb) (by positivity)
  have hden' : ((b.coefficient.natAbs * 10 ^ a.scale : Nat) : Rat) ≠ 0 := by exact_mod_cast hden.ne'
  rw [div, if_neg hb]
  rw [← div_exact a hb] at hfit hz ⊢
  refine nearest_exact _ hk hm hden (natAbs_le_of_abs_le hden hfit) ?_
  rw [Nat.min_eq_left hk]
  refine ⟨z, ?_⟩
  rw [div_mul_eq_mul_div, div_eq_iff hden', mul_comm (z : Rat)] at hz
  apply Rat.intCast_injective
  push_cast at hz ⊢
  rw [Nat.cast_natAbs, Int.cast_abs] at hz
  exact hz

omit hk hm

theorem abs_near (h : Near e a p) : Near e a.abs |p| := by
  rw [Near, abs_value]
  exact (abs_abs_sub_abs_le_abs_sub _ _).trans h

/-- A clamp adds no error. -/
theorem clamp_near (h : Near e a p) (hle : lo.value ≤ hi.value) :
    Near e (a.clamp lo hi) (max lo.value (min p hi.value)) := by
  rw [Near, clamp_value hle, max_comm lo.value, max_comm lo.value]
  calc |max (min a.value hi.value) lo.value - max (min p hi.value) lo.value|
      ≤ |min a.value hi.value - min p hi.value| := abs_max_sub_max_le_abs _ _ _
    _ ≤ max |a.value - p| |hi.value - hi.value| := abs_min_sub_min_le_max _ _ _ _
    _ ≤ e := max_le h (by rw [sub_self, abs_zero]; exact (abs_nonneg _).trans h)

end

end Fixed

end FixedPoint
