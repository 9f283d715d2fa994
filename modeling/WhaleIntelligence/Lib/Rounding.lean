import Mathlib.Algebra.Order.Field.Basic
import Mathlib.Tactic.Linarith
import Mathlib.Tactic.NormNum
import Mathlib.Tactic.Ring
import Mathlib.Data.Rat.Defs
import Mathlib.Algebra.Order.Ring.Rat

/- Rounding to the nearest value of a set, and the finite binary64 numbers.

   Of a number there may be two nearest values, and nothing is said about which of them
   is taken. Where the nearest value of a bound is the only one, rounding does not
   carry a number over the bound from above (`Nearest.le_of_le`); from below it may
   round up to it. The binary64 numbers of one size lie on a grid (`IsF64.grid`), so a
   grid point is the only nearest value of what is closer than half a step to it
   (`only_nearest`). -/
namespace Rounding

section
variable {K : Type} [Field K] [LinearOrder K] {F : Set K} {x y f θ : K}

def Nearest (F : Set K) (x f : K) : Prop := f ∈ F ∧ ∀ g ∈ F, |f - x| ≤ |g - x|

/-- Every other value of the set is farther away. -/
def OnlyNearest (F : Set K) (x f : K) : Prop := f ∈ F ∧ ∀ g ∈ F, g ≠ f → |f - x| < |g - x|

theorem OnlyNearest.nearest (h : OnlyNearest F x f) : Nearest F x f := by
  refine ⟨h.1, fun g hg => ?_⟩
  by_cases hgf : g = f
  · rw [hgf]
  · exact (h.2 g hg hgf).le

variable [IsStrictOrderedRing K]

/-- A number from the bound on is not rounded below the rounded bound. -/
theorem Nearest.le_of_le (hx : Nearest F x f) (hy : OnlyNearest F y θ) (hle : y ≤ x) : θ ≤ f := by
  by_contra hlt
  rw [not_le] at hlt
  -- `f` is at least as near to `x` as `θ` is, so `x` is not above the middle of the two; `y` is.
  have hmid : (f - x) ^ 2 ≤ (θ - x) ^ 2 := sq_le_sq.mpr (hx.2 θ hy.1)
  have hmid' : (θ - y) ^ 2 < (f - y) ^ 2 := sq_lt_sq.mpr (hy.2 f hx.1 hlt.ne)
  have hbelow : 0 ≤ (θ - f) * (θ + f - 2 * x) := by
    calc (0 : K) ≤ (θ - x) ^ 2 - (f - x) ^ 2 := sub_nonneg.mpr hmid
      _ = (θ - f) * (θ + f - 2 * x) := by ring
  have habove : 0 < (θ - f) * (2 * y - (θ + f)) := by
    calc (0 : K) < (f - y) ^ 2 - (θ - y) ^ 2 := sub_pos.mpr hmid'
      _ = (θ - f) * (2 * y - (θ + f)) := by ring
  have hpos : 0 < θ - f := sub_pos.mpr hlt
  have hx' := nonneg_of_mul_nonneg_right hbelow hpos
  have hy' := pos_of_mul_pos_right habove hpos.le
  linarith

end

/-! ## Binary64 -/

/-- The finite binary64 numbers. -/
def IsF64 (q : Rat) : Prop := ∃ m e : Int, |m| < 2 ^ 53 ∧ -1074 ≤ e ∧ e ≤ 971 ∧ q = m * (2 : Rat) ^ e

section
variable {q g : Rat} {k n : Int}

/-- A binary64 number is on the grid of step `2 ^ k`, or it is small. -/
theorem IsF64.grid (h : IsF64 g) (k : Int) : (∃ n : Int, g = n * (2 : Rat) ^ k) ∨ |g| < (2 : Rat) ^ (k + 52) := by
  obtain ⟨m, e, hm, -, -, rfl⟩ := h
  by_cases hk : k ≤ e
  · obtain ⟨d, hd⟩ := Int.eq_ofNat_of_zero_le (sub_nonneg.mpr hk)
    refine Or.inl ⟨m * 2 ^ d, ?_⟩
    have he : e = d + k := by omega
    rw [he, zpow_add₀ two_ne_zero, zpow_natCast]
    push_cast
    ring
  · right
    have hm' : |(m : Rat)| < 2 ^ 53 := by exact_mod_cast hm
    have hpos : (0 : Rat) < 2 ^ e := zpow_pos two_pos e
    calc |(m : Rat) * 2 ^ e| = |(m : Rat)| * 2 ^ e := by rw [abs_mul, abs_of_pos hpos]
      _ < 2 ^ 53 * 2 ^ e := mul_lt_mul_of_pos_right hm' hpos
      _ = (2 : Rat) ^ (53 + e) := by rw [zpow_add₀ two_ne_zero]; norm_num
      _ ≤ 2 ^ (k + 52) := zpow_le_zpow_right₀ one_le_two (by omega)

/-- A binary64 number on a grid of its size is the only nearest one to what is closer
than half a step to it. -/
theorem only_nearest (hf : IsF64 (n * (2 : Rat) ^ k)) (hclose : |n * (2 : Rat) ^ k - q| < 2 ^ k / 2)
    (hlarge : (2 : Rat) ^ (k + 52) + 2 ^ k / 2 ≤ q) : OnlyNearest {g | IsF64 g} q (n * (2 : Rat) ^ k) := by
  refine ⟨hf, fun g hg hne => hclose.trans_le ?_⟩
  have hpos : (0 : Rat) < 2 ^ k := zpow_pos two_pos k
  rcases IsF64.grid hg k with ⟨n', rfl⟩ | hsmall
  · have hstep : (2 : Rat) ^ k ≤ |n' * (2 : Rat) ^ k - n * 2 ^ k| := by
      have hn : n' ≠ n := fun h => hne (by rw [h])
      have hone : (1 : Rat) ≤ |(n' : Rat) - n| := by exact_mod_cast Int.one_le_abs (sub_ne_zero.mpr hn)
      rw [← sub_mul, abs_mul, abs_of_pos hpos]
      exact le_mul_of_one_le_left hpos.le hone
    have htri : |n' * (2 : Rat) ^ k - n * 2 ^ k| ≤ |n' * (2 : Rat) ^ k - q| + |n * (2 : Rat) ^ k - q| := by
      rw [abs_sub_comm (n * (2 : Rat) ^ k) q]
      exact abs_sub_le _ _ _
    linarith
  · have hbelow : q - g ≤ |g - q| := by
      rw [abs_sub_comm]
      exact le_abs_self _
    have hg' := (le_abs_self g).trans_lt hsmall
    linarith

end

end Rounding
