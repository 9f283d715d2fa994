import Mathlib.Data.Int.Order.Basic
import Mathlib.Tactic.Linarith

/- Decimal numbers of bounded coefficient and scale.

   A number is `coefficient / 10 ^ scale`, and the two bounds are fields of it. An
   operation rounds its exact result to the largest scale at which the coefficient is
   within its bound. It overflows, `none` here, where that is so at no scale, not
   even at that of the integers. So a quotient by a number that is not below one never
   overflows (`div_isSome`), and a product of integers does exactly when it is not
   within the bound (`mul_integers`). -/
namespace FixedPoint

/-- The integer nearest to `n / d`, the even one where two are. -/
def roundHalfEven (n : Int) (d : Nat) : Int :=
  if 2 * (n % d) < d ∨ 2 * (n % d) = d ∧ n / d % 2 = 0 then n / d else n / d + 1

theorem roundHalfEven_one (n : Int) : roundHalfEven n 1 = n := by
  simp [roundHalfEven]

/-- A quotient between two integers rounds to one between them. -/
theorem roundHalfEven_natAbs_le {n : Int} {d m : Nat} (hd : 0 < d) (h : n.natAbs ≤ m * d) :
    (roundHalfEven n d).natAbs ≤ m := by
  have hd' : (0 : Int) < d := by omega
  have hhigh : n ≤ m * d := by
    have hcast : (n.natAbs : Int) ≤ m * d := by exact_mod_cast h
    omega
  have hlow : -(m : Int) * d ≤ n := by
    have hcast : (n.natAbs : Int) ≤ m * d := by exact_mod_cast h
    rw [Int.neg_mul]
    omega
  have hquot : -(m : Int) ≤ n / d := (Int.le_ediv_iff_mul_le hd').mpr hlow
  have hquot' : n / d ≤ m := Int.ediv_le_of_le_mul hd' hhigh
  rw [roundHalfEven]
  split
  · omega
  · rename_i hup
    -- the largest quotient leaves no rest
    have hne : n / d ≠ m := by
      intro heq
      have hdiv := Int.mul_ediv_add_emod n d
      rw [heq, Int.mul_comm] at hdiv
      have hrest := Int.emod_nonneg n hd'.ne'
      apply hup
      left
      omega
    omega

/-- A number `coefficient / 10 ^ scale`. -/
structure Fixed (limit maxScale : Nat) where
  coefficient : Int
  scale : Nat
  fits : coefficient.natAbs < limit
  scaled : scale ≤ maxScale
  deriving DecidableEq, Repr

namespace Fixed

variable {limit maxScale : Nat}

def ofInt (n : Int) : Option (Fixed limit maxScale) :=
  if h : n.natAbs < limit then some ⟨n, 0, h, Nat.zero_le _⟩ else none

/-- The number at the scale that is nearest to `num / den`. -/
def atScale (num : Int) (den scale : Nat) : Option (Fixed limit maxScale) :=
  if h : (roundHalfEven (num * 10 ^ scale) den).natAbs < limit ∧ scale ≤ maxScale then
    some ⟨roundHalfEven (num * 10 ^ scale) den, scale, h.1, h.2⟩
  else none

/-- The number nearest to `num / den`, at the largest scale up to this one. -/
def nearest (num : Int) (den : Nat) : Nat → Option (Fixed limit maxScale)
  | 0 => atScale num den 0
  | scale + 1 => (atScale num den (scale + 1)).or (nearest num den scale)

def mul (a b : Fixed limit maxScale) : Option (Fixed limit maxScale) :=
  nearest (a.coefficient * b.coefficient) (10 ^ (a.scale + b.scale)) (a.scale + b.scale)

def div (a b : Fixed limit maxScale) : Option (Fixed limit maxScale) :=
  if b.coefficient = 0 then none
  else nearest (a.coefficient * b.coefficient.sign * 10 ^ b.scale) (b.coefficient.natAbs * 10 ^ a.scale) maxScale

theorem nearest_isSome {num : Int} {den m : Nat} (hden : 0 < den) (hm : m < limit) (h : num.natAbs ≤ m * den)
    (scale : Nat) : (nearest num den scale : Option (Fixed limit maxScale)).isSome := by
  induction scale with
  | zero =>
    have hle : (roundHalfEven (num * 10 ^ 0) den).natAbs ≤ m := by
      rw [pow_zero, Int.mul_one]
      exact roundHalfEven_natAbs_le hden h
    rw [nearest, atScale, dif_pos ⟨by omega, Nat.zero_le _⟩]
    rfl
  | succ scale ih =>
    rw [nearest, Option.isSome_or, ih, Bool.or_true]

/-- A quotient by a number that is not below one is no larger than what is divided. -/
theorem div_isSome (a b : Fixed limit maxScale) (hb : 10 ^ b.scale ≤ b.coefficient) : (a.div b).isSome := by
  have hpow : (0 : Int) < 10 ^ b.scale := by positivity
  have hpos : 0 < b.coefficient := by omega
  have hle : (10 : Nat) ^ b.scale ≤ b.coefficient.natAbs := by
    have hcast : ((10 ^ b.scale : Nat) : Int) = 10 ^ b.scale := by push_cast; rfl
    omega
  rw [div, if_neg hpos.ne', Int.sign_eq_one_of_pos hpos, Int.mul_one]
  refine nearest_isSome (m := a.coefficient.natAbs) ?_ a.fits ?_ maxScale
  · exact Nat.mul_pos (by omega) (by positivity)
  · have hnum : (a.coefficient * 10 ^ b.scale).natAbs = a.coefficient.natAbs * 10 ^ b.scale := by
      rw [Int.natAbs_mul, Int.natAbs_pow]
      rfl
    calc (a.coefficient * 10 ^ b.scale).natAbs
        = a.coefficient.natAbs * 10 ^ b.scale := hnum
      _ ≤ a.coefficient.natAbs * b.coefficient.natAbs := Nat.mul_le_mul_left _ hle
      _ ≤ a.coefficient.natAbs * (b.coefficient.natAbs * 10 ^ a.scale) :=
          Nat.mul_le_mul_left _ (Nat.le_mul_of_pos_right _ (by positivity))

/-- Integers multiply to their product, or overflow. -/
theorem mul_integers {a b : Fixed limit maxScale} (ha : a.scale = 0) (hb : b.scale = 0) :
    a.mul b = ofInt (a.coefficient * b.coefficient) := by
  rw [mul, ha, hb, nearest, atScale, ofInt]
  simp [roundHalfEven_one]

end Fixed

end FixedPoint
