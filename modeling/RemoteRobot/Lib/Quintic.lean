import Mathlib.Algebra.Order.Field.Basic
import Mathlib.Tactic.Linarith
import Mathlib.Tactic.Ring

/-!
# The quintic smoothstep

`blend u = 6 u ^ 5 - 15 u ^ 4 + 10 u ^ 3` rises from 0 to 1 over the unit interval, so a point
moved by it from `a` towards `b` stays between the two.
-/

namespace Quintic

variable {K : Type*} [Field K] [LinearOrder K] [IsStrictOrderedRing K]

/-- The blend in Horner form. -/
def blend (u : K) : K := u * u * u * (10 + u * (-15 + 6 * u))

omit [LinearOrder K] [IsStrictOrderedRing K] in
theorem one_sub_blend (u : K) :
    1 - blend u = (1 - u) * (1 - u) * (1 - u) * (1 + 3 * u + 6 * (u * u)) := by
  unfold blend
  ring

theorem blend_nonneg {u : K} (h : 0 ≤ u) : 0 ≤ blend u := by
  have hq : 0 ≤ 10 + u * (-15 + 6 * u) := by nlinarith [sq_nonneg (4 * u - 5)]
  exact mul_nonneg (mul_nonneg (mul_nonneg h h) h) hq

theorem blend_le_one {u : K} (h₀ : 0 ≤ u) (h₁ : u ≤ 1) : blend u ≤ 1 := by
  have hv : 0 ≤ 1 - u := sub_nonneg.2 h₁
  have hq : 0 ≤ 1 + 3 * u + 6 * (u * u) := by nlinarith [mul_nonneg h₀ h₀]
  rw [← sub_nonneg, one_sub_blend]
  exact mul_nonneg (mul_nonneg (mul_nonneg hv hv) hv) hq

/-- Part of the way from `a` to `b` stays where `a` and `b` are. -/
theorem lerp_mem {a b s lo hi : K} (ha : lo ≤ a ∧ a ≤ hi) (hb : lo ≤ b ∧ b ≤ hi)
    (hs : 0 ≤ s ∧ s ≤ 1) : lo ≤ a + (b - a) * s ∧ a + (b - a) * s ≤ hi := by
  have h₀ : a + (b - a) * s = (1 - s) * a + s * b := by ring
  have hv : 0 ≤ 1 - s := sub_nonneg.2 hs.2
  rw [h₀]
  constructor
  · calc lo = (1 - s) * lo + s * lo := by ring
      _ ≤ (1 - s) * a + s * b :=
        add_le_add (mul_le_mul_of_nonneg_left ha.1 hv) (mul_le_mul_of_nonneg_left hb.1 hs.1)
  · calc (1 - s) * a + s * b ≤ (1 - s) * hi + s * hi :=
        add_le_add (mul_le_mul_of_nonneg_left ha.2 hv) (mul_le_mul_of_nonneg_left hb.2 hs.1)
      _ = hi := by ring

end Quintic
