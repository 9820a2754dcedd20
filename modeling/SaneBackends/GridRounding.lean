import Mathlib.Data.Int.Init
import Mathlib.Tactic.Linarith

/-!
# Rounding to a grid

The grid of origin `lo` and width `q` is `lo`, `lo + q`, `lo + 2 * q`, …  A number is
rounded to the nearest point, halves upwards.  Near the end of an interval the nearest
point can lie outside of it, unless the interval ends on the grid.
-/

namespace SaneBackends.GridRounding

variable {lo hi q x : Int}

def roundGrid (lo q x : Int) : Int := lo + (x - lo + q / 2) / q * q

attribute [grind =] roundGrid

/-- The last point of the grid up to `hi`. -/
def lastGrid (lo hi q : Int) : Int := lo + (hi - lo) / q * q

/-- A point of the grid is rounded to itself. -/
theorem roundGrid_roundGrid (hq : 0 < q) :
    roundGrid lo q (roundGrid lo q x) = roundGrid lo q x := by
  have hhalf : q / 2 / q = 0 := Int.ediv_eq_zero_of_lt (by omega) (by omega)
  have hquot : ((x - lo + q / 2) / q * q + q / 2) / q = (x - lo + q / 2) / q := by
    rw [Int.add_comm, Int.add_mul_ediv_right _ _ (by omega), hhalf, Int.zero_add]
  unfold roundGrid
  rw [add_sub_cancel_left, hquot]

theorem le_roundGrid (hq : 0 < q) (hx : lo ≤ x) : lo ≤ roundGrid lo q x := by
  have hquot : 0 ≤ (x - lo + q / 2) / q := Int.ediv_nonneg (by omega) (by omega)
  have hprod : 0 ≤ (x - lo + q / 2) / q * q := Int.mul_nonneg hquot (by omega)
  unfold roundGrid
  omega

/-- Rounding moves a number by half of the width at most. -/
theorem roundGrid_le_add (hq : 0 < q) : roundGrid lo q x ≤ x + q / 2 := by
  have hprod : (x - lo + q / 2) / q * q ≤ x - lo + q / 2 := Int.ediv_mul_le _ (by omega)
  unfold roundGrid
  omega

/-- The numbers up to the point above are rounded to this point, too. -/
theorem roundGrid_between {y : Int} (hq : 0 < q) (hxy : x ≤ y) (hy : y ≤ roundGrid lo q x) :
    roundGrid lo q y = roundGrid lo q x := by
  have hhalf : q / 2 / q = 0 := Int.ediv_eq_zero_of_lt (by omega) (by omega)
  have hlower : (x - lo + q / 2) / q ≤ (y - lo + q / 2) / q := Int.ediv_le_ediv hq (by omega)
  have hupper : (y - lo + q / 2) / q ≤ (x - lo + q / 2) / q := by
    have hle : y - lo + q / 2 ≤ q / 2 + (x - lo + q / 2) / q * q := by
      rw [roundGrid] at hy
      omega
    have hdiv := Int.ediv_le_ediv hq hle
    rwa [Int.add_mul_ediv_right _ _ (by omega), hhalf, Int.zero_add] at hdiv
  rw [roundGrid, roundGrid, Int.le_antisymm hupper hlower]

/-- Rounding stays within `hi` up to half of the width behind the last point. -/
theorem roundGrid_le_iff (hq : 0 < q) :
    roundGrid lo q x ≤ hi ↔ x < lastGrid lo hi q + (q - q / 2) := by
  have hmul : ((hi - lo) / q + 1) * q = (hi - lo) / q * q + q := by rw [Int.add_mul, Int.one_mul]
  have hle : roundGrid lo q x ≤ hi ↔ (x - lo + q / 2) / q ≤ (hi - lo) / q := by
    rw [Int.le_ediv_iff_mul_le hq]
    unfold roundGrid
    omega
  rw [hle, ← Int.lt_add_one_iff, Int.ediv_lt_iff_lt_mul hq, hmul]
  unfold lastGrid
  omega

/-- The beginning of an interval is always far enough from its end. -/
theorem lt_lastGrid_add (hq : 0 < q) (hlo : lo ≤ hi) : lo < lastGrid lo hi q + (q - q / 2) := by
  have hquot : 0 ≤ (hi - lo) / q := Int.ediv_nonneg (by omega) (by omega)
  have hprod : 0 ≤ (hi - lo) / q * q := Int.mul_nonneg hquot (by omega)
  unfold lastGrid
  omega

/-! ### The nearest point -/

/-- No other number with the property `P` is closer to `x` than `y` is. -/
def Nearest (P : Int → Prop) (x y : Int) : Prop :=
  P y ∧ ∀ z, P z → (x - y).natAbs ≤ (x - z).natAbs

/-- A point of the grid in the interval. -/
def GridPoint (lo hi q y : Int) : Prop := lo ≤ y ∧ y ≤ hi ∧ ∃ k : Int, y = lo + k * q

/-- Rounding finds a nearest point of the grid. -/
theorem roundGrid_nearest (hq : 0 < q) (k : Int) :
    (x - roundGrid lo q x).natAbs ≤ (x - (lo + k * q)).natAbs := by
  have hdiv := Int.mul_ediv_add_emod (x - lo + q / 2) q
  have hmod := Int.emod_nonneg (x - lo + q / 2) (by omega : q ≠ 0)
  have hlt := Int.emod_lt_of_pos (x - lo + q / 2) hq
  rw [roundGrid]
  rw [Int.mul_comm] at hdiv
  generalize (x - lo + q / 2) / q = m at hdiv
  generalize (x - lo + q / 2) % q = rem at hdiv hmod hlt
  rcases lt_trichotomy k m with h | rfl | h
  · have hstep : (k + 1) * q ≤ m * q := Int.mul_le_mul_of_nonneg_right (by omega) (by omega)
    rw [Int.add_mul, Int.one_mul] at hstep
    omega
  · exact Nat.le_refl _
  · have hstep : (m + 1) * q ≤ k * q := Int.mul_le_mul_of_nonneg_right (by omega) (by omega)
    rw [Int.add_mul, Int.one_mul] at hstep
    omega

theorem roundGrid_lo (hq : 0 < q) : roundGrid lo q lo = lo := by
  have hhalf : q / 2 / q = 0 := Int.ediv_eq_zero_of_lt (by omega) (by omega)
  rw [roundGrid, Int.sub_self, Int.zero_add, hhalf, Int.zero_mul, Int.add_zero]

/-- A number is brought into an interval and rounded; if the result is in the interval it is
    nearest to the number. -/
theorem nearest_roundGrid (hq : 0 < q) (hle : lo ≤ hi)
    (hin : roundGrid lo q (min (max x lo) hi) ≤ hi) :
    Nearest (GridPoint lo hi q) x (roundGrid lo q (min (max x lo) hi)) := by
  have hlo : lo ≤ min (max x lo) hi := by omega
  refine ⟨⟨le_roundGrid hq hlo, hin, _, rfl⟩, ?_⟩
  rintro z ⟨hz, hz', k, rfl⟩
  have hnear : (min (max x lo) hi - roundGrid lo q (min (max x lo) hi)).natAbs ≤
      (min (max x lo) hi - (lo + k * q)).natAbs := roundGrid_nearest hq k
  rcases Int.lt_or_le x lo with hx | hx
  · have hclamp : min (max x lo) hi = lo := by omega
    rw [hclamp, roundGrid_lo hq]
    omega
  · omega

end SaneBackends.GridRounding
