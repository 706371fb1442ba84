import Mathlib.Analysis.Calculus.MeanValue
import Mathlib.Analysis.SpecialFunctions.Pow.Deriv
import Mathlib.Topology.Algebra.Module.ModuleTopology
import RemoteRobot.Lib.Quintic

/-!
# Moving along the quintic smoothstep

`smoothstep` is the blend held at its ends, on the whole line.  It is twice differentiable there,
since the first two derivatives of the blend vanish at 0 and 1.  Its slope peaks in the middle at
15 / 8 and its second derivative at 10 / √3, which scale to the peaks of a move from `a` to `b` that
lasts `T`.
-/

namespace Quintic

open Set

/-! ## The derivatives of the blend -/

/-- The derivative of `blend`. -/
def blend' (u : ℝ) : ℝ := 30 * (u * (1 - u)) ^ 2

/-- The second derivative of `blend`. -/
def blend'' (u : ℝ) : ℝ := 60 * (u * (1 - u)) * (1 - 2 * u)

theorem hasDerivAt_blend (u : ℝ) : HasDerivAt blend (blend' u) u := by
  have hpow : ∀ n : ℕ, HasDerivAt (fun u : ℝ => u ^ n) (n * u ^ (n - 1)) u :=
    fun n => hasDerivAt_pow n u
  have h := (((hpow 3).const_mul 10).sub ((hpow 4).const_mul 15)).add ((hpow 5).const_mul 6)
  have heq : (blend : ℝ → ℝ) = (fun u => 10 * u ^ 3) - (fun u => 15 * u ^ 4) +
      fun u => 6 * u ^ 5 := by
    funext u
    simp only [blend, Pi.add_apply, Pi.sub_apply]
    ring
  rw [heq]
  refine h.congr_deriv ?_
  norm_num [blend']
  ring

theorem hasDerivAt_blend' (u : ℝ) : HasDerivAt blend' (blend'' u) u := by
  have hid := hasDerivAt_id' u
  have h := (((hid.mul (hid.const_sub 1)).pow 2)).const_mul 30
  refine (h.congr_deriv ?_)
  norm_num [blend'']
  ring

theorem blend'_nonneg (u : ℝ) : 0 ≤ blend' u := mul_nonneg (by norm_num) (sq_nonneg _)

/-- The slope is largest in the middle. -/
theorem blend'_le {u : ℝ} (h₀ : 0 ≤ u) (h₁ : u ≤ 1) : blend' u ≤ 15 / 8 := by
  have hmul : 0 ≤ u * (1 - u) := mul_nonneg h₀ (sub_nonneg.2 h₁)
  have hle : u * (1 - u) ≤ 1 / 4 := by nlinarith [sq_nonneg (2 * u - 1)]
  have hsq : (u * (1 - u)) ^ 2 ≤ (1 / 4) ^ 2 := pow_le_pow_left₀ hmul hle 2
  unfold blend'
  linarith

/-- With `x = (2 u - 1) ^ 2` the square of the second derivative is `225 x (1 - x) ^ 2`, which
peaks at `x = 1 / 3`. -/
theorem sq_blend''_le {u : ℝ} (h₀ : 0 ≤ u) (h₁ : u ≤ 1) : blend'' u ^ 2 ≤ 100 / 3 := by
  set x : ℝ := (2 * u - 1) ^ 2 with hx
  have hsq : blend'' u ^ 2 = 225 * (x * (1 - x) ^ 2) := by
    rw [hx]
    unfold blend''
    ring
  have hx₁ : x ≤ 1 := by
    rw [hx]
    nlinarith [mul_nonneg h₀ (sub_nonneg.2 h₁)]
  -- 4 / 27 - x (1 - x) ^ 2 = (1 / 3 - x) ^ 2 (4 / 3 - x)
  have hpeak : 0 ≤ (1 / 3 - x) ^ 2 * (4 / 3 - x) := mul_nonneg (sq_nonneg _) (by linarith)
  rw [hsq]
  nlinarith

theorem abs_blend''_le {u : ℝ} (h₀ : 0 ≤ u) (h₁ : u ≤ 1) : |blend'' u| ≤ 10 / √3 := by
  have hpos : (0 : ℝ) ≤ 10 / √3 := by positivity
  refine abs_le_of_sq_le_sq ?_ hpos
  rw [div_pow, Real.sq_sqrt (by norm_num : (0 : ℝ) ≤ 3)]
  have := sq_blend''_le h₀ h₁
  linarith

theorem ten_div_sqrt_three_lt : 10 / √3 < (5.773503 : ℝ) := by
  have hsqrt : (10 / 5.773503 : ℝ) < √3 := Real.lt_sqrt_of_sq_lt (by norm_num)
  rw [div_lt_iff₀ (by norm_num)] at hsqrt
  rw [div_lt_iff₀ (by positivity)]
  linarith

/-! ## The smoothstep -/

/-- The nearest point of the unit interval. -/
noncomputable def clamp (u : ℝ) : ℝ := max 0 (min 1 u)

theorem clamp_nonneg (u : ℝ) : 0 ≤ clamp u := le_max_left 0 _

theorem clamp_le_one (u : ℝ) : clamp u ≤ 1 := max_le zero_le_one (min_le_left 1 u)

theorem clamp_of_le_zero {u : ℝ} (h : u ≤ 0) : clamp u = 0 :=
  max_eq_left (le_trans (min_le_right 1 u) h)

theorem clamp_of_one_le {u : ℝ} (h : 1 ≤ u) : clamp u = 1 := by
  rw [clamp, min_eq_left h, max_eq_right zero_le_one]

theorem clamp_of_mem {u : ℝ} (h₀ : 0 ≤ u) (h₁ : u ≤ 1) : clamp u = u := by
  rw [clamp, min_eq_right h₁, max_eq_right h₀]

/-- Two functions with one derivative where they meet make one function with it. -/
theorem hasDerivAt_of_sides {f g h : ℝ → ℝ} {a d : ℝ} (hg : HasDerivAt g d a)
    (hh : HasDerivAt h d a) (hle : ∀ u ≤ a, f u = g u) (hge : ∀ u, a ≤ u → f u = h u) :
    HasDerivAt f d a := by
  have hleft : HasDerivWithinAt f d (Iic a) a :=
    hg.hasDerivWithinAt.congr (fun u hu => hle u hu) (hle a le_rfl)
  have hright : HasDerivWithinAt f d (Ici a) a :=
    hh.hasDerivWithinAt.congr (fun u hu => hge u hu) (hge a le_rfl)
  rw [← hasDerivWithinAt_univ, ← Iic_union_Ici]
  exact hleft.union hright

/-- Holding a function below `c` keeps its derivative when that is zero at `c`. -/
theorem hasDerivAt_max {f f' : ℝ → ℝ} {c : ℝ} (hf : ∀ u, HasDerivAt f (f' u) u) (hc : f' c = 0)
    (u : ℝ) : HasDerivAt (fun u => f (max c u)) (f' (max c u)) u := by
  rcases lt_trichotomy u c with hu | rfl | hu
  · have heq : (fun u => f (max c u)) =ᶠ[nhds u] fun _ => f c := by
      filter_upwards [Iio_mem_nhds hu] with v hv
      rw [max_eq_left (le_of_lt hv)]
    rw [max_eq_left hu.le, hc]
    exact (hasDerivAt_const u (f c)).congr_of_eventuallyEq heq
  · have hconst := hasDerivAt_const u (f u)
    rw [← hc] at hconst
    rw [max_self]
    refine hasDerivAt_of_sides hconst (hf u) (fun v hv => ?_) fun v hv => ?_
    · rw [max_eq_left hv]
    · rw [max_eq_right hv]
  · have heq : (fun u => f (max c u)) =ᶠ[nhds u] f := by
      filter_upwards [Ioi_mem_nhds hu] with v hv
      rw [max_eq_right (le_of_lt hv)]
    rw [max_eq_right hu.le]
    exact (hf u).congr_of_eventuallyEq heq

/-- The same above `c`. -/
theorem hasDerivAt_min {f f' : ℝ → ℝ} {c : ℝ} (hf : ∀ u, HasDerivAt f (f' u) u) (hc : f' c = 0)
    (u : ℝ) : HasDerivAt (fun u => f (min c u)) (f' (min c u)) u := by
  rcases lt_trichotomy u c with hu | rfl | hu
  · have heq : (fun u => f (min c u)) =ᶠ[nhds u] f := by
      filter_upwards [Iio_mem_nhds hu] with v hv
      rw [min_eq_right (le_of_lt hv)]
    rw [min_eq_right hu.le]
    exact (hf u).congr_of_eventuallyEq heq
  · have hconst := hasDerivAt_const u (f u)
    rw [← hc] at hconst
    rw [min_self]
    refine hasDerivAt_of_sides (hf u) hconst (fun v hv => ?_) fun v hv => ?_
    · rw [min_eq_right hv]
    · rw [min_eq_left hv]
  · have heq : (fun u => f (min c u)) =ᶠ[nhds u] fun _ => f c := by
      filter_upwards [Ioi_mem_nhds hu] with v hv
      rw [min_eq_left (le_of_lt hv)]
    rw [min_eq_left hu.le, hc]
    exact (hasDerivAt_const u (f c)).congr_of_eventuallyEq heq

theorem hasDerivAt_clamp {f f' : ℝ → ℝ} (hf : ∀ u, HasDerivAt f (f' u) u) (h₀ : f' 0 = 0)
    (h₁ : f' 1 = 0) (u : ℝ) : HasDerivAt (fun u => f (clamp u)) (f' (clamp u)) u := by
  have hmax : f' (max 0 1) = 0 := by rw [max_eq_right zero_le_one, h₁]
  exact hasDerivAt_min (fun v => hasDerivAt_max hf h₀ v) hmax u

/-- The blend, held at 0 before the unit interval and at 1 behind it. -/
noncomputable def smoothstep (u : ℝ) : ℝ := blend (clamp u)

theorem hasDerivAt_smoothstep (u : ℝ) : HasDerivAt smoothstep (blend' (clamp u)) u :=
  hasDerivAt_clamp hasDerivAt_blend (by norm_num [blend']) (by norm_num [blend']) u

theorem hasDerivAt_slope (u : ℝ) :
    HasDerivAt (fun u => blend' (clamp u)) (blend'' (clamp u)) u :=
  hasDerivAt_clamp hasDerivAt_blend' (by norm_num [blend'']) (by norm_num [blend'']) u

/-! ## Moves -/

/-- The move from `a` to `b` that starts at `t₀` and lasts `T`. -/
noncomputable def move (a b t₀ T t : ℝ) : ℝ := a + (b - a) * smoothstep ((t - t₀) / T)

variable {a b t₀ T : ℝ}

theorem hasDerivAt_move (t : ℝ) :
    HasDerivAt (move a b t₀ T) ((b - a) / T * blend' (clamp ((t - t₀) / T))) t := by
  have harg : HasDerivAt (fun t => (t - t₀) / T) (1 / T) t :=
    ((hasDerivAt_id' t).sub_const t₀).div_const T
  have h := (((hasDerivAt_smoothstep _).comp t harg).const_mul (b - a)).const_add a
  refine h.congr_deriv ?_
  ring

theorem deriv_move :
    deriv (move a b t₀ T) = fun t => (b - a) / T * blend' (clamp ((t - t₀) / T)) :=
  funext fun t => (hasDerivAt_move t).deriv

theorem hasDerivAt_deriv_move (t : ℝ) : HasDerivAt (deriv (move a b t₀ T))
    ((b - a) / (T * T) * blend'' (clamp ((t - t₀) / T))) t := by
  have harg : HasDerivAt (fun t => (t - t₀) / T) (1 / T) t :=
    ((hasDerivAt_id' t).sub_const t₀).div_const T
  have h := ((hasDerivAt_slope _).comp t harg).const_mul ((b - a) / T)
  rw [deriv_move]
  refine h.congr_deriv ?_
  rw [← div_div]
  ring

/-- A move is never faster than in its middle. -/
theorem abs_deriv_move_le (hT : 0 < T) (t : ℝ) :
    |deriv (move a b t₀ T) t| ≤ 15 / 8 * |b - a| / T := by
  have hslope := blend'_le (clamp_nonneg ((t - t₀) / T)) (clamp_le_one ((t - t₀) / T))
  have habs : |deriv (move a b t₀ T) t| = |b - a| / T * blend' (clamp ((t - t₀) / T)) := by
    rw [deriv_move, abs_mul, abs_div, abs_of_pos hT, abs_of_nonneg (blend'_nonneg _)]
  calc |deriv (move a b t₀ T) t| = |b - a| / T * blend' (clamp ((t - t₀) / T)) := habs
    _ ≤ |b - a| / T * (15 / 8) := mul_le_mul_of_nonneg_left hslope (by positivity)
    _ = 15 / 8 * |b - a| / T := by ring

theorem abs_deriv_move_middle (hT : 0 < T) :
    |deriv (move a b t₀ T) (t₀ + T / 2)| = 15 / 8 * |b - a| / T := by
  have hmiddle : (t₀ + T / 2 - t₀) / T = 1 / 2 := by
    rw [add_sub_cancel_left, div_div, mul_comm, ← div_div, div_self hT.ne']
  have hclamp : clamp (1 / 2) = 1 / 2 := clamp_of_mem (by norm_num) (by norm_num)
  rw [deriv_move]
  show |(b - a) / T * blend' (clamp ((t₀ + T / 2 - t₀) / T))| = _
  rw [hmiddle, hclamp, abs_mul, abs_div, abs_of_pos hT, abs_of_nonneg (blend'_nonneg _)]
  norm_num [blend']
  ring

theorem abs_deriv_deriv_move_le (hT : 0 < T) (t : ℝ) :
    |deriv (deriv (move a b t₀ T)) t| ≤ 10 / √3 * |b - a| / (T * T) := by
  have hbend := abs_blend''_le (clamp_nonneg ((t - t₀) / T)) (clamp_le_one ((t - t₀) / T))
  have hTT : 0 < T * T := mul_pos hT hT
  have habs : |deriv (deriv (move a b t₀ T)) t| =
      |b - a| / (T * T) * |blend'' (clamp ((t - t₀) / T))| := by
    rw [(hasDerivAt_deriv_move t).deriv, abs_mul, abs_div, abs_of_pos hTT]
  calc |deriv (deriv (move a b t₀ T)) t|
      = |b - a| / (T * T) * |blend'' (clamp ((t - t₀) / T))| := habs
    _ ≤ |b - a| / (T * T) * (10 / √3) := mul_le_mul_of_nonneg_left hbend (by positivity)
    _ = 10 / √3 * |b - a| / (T * T) := by ring

/-- A move covers no more than its top speed allows. -/
theorem abs_move_sub_le {v : ℝ} (hv : ∀ t, |deriv (move a b t₀ T) t| ≤ v) (s t : ℝ) :
    |move a b t₀ T t - move a b t₀ T s| ≤ v * |t - s| :=
  convex_univ.norm_image_sub_le_of_norm_deriv_le
    (fun u _ => (hasDerivAt_move u).differentiableAt) (fun u _ => hv u) (mem_univ s) (mem_univ t)

theorem move_mem (t : ℝ) : min a b ≤ move a b t₀ T t ∧ move a b t₀ T t ≤ max a b :=
  lerp_mem ⟨min_le_left a b, le_max_left a b⟩ ⟨min_le_right a b, le_max_right a b⟩
    ⟨blend_nonneg (clamp_nonneg _), blend_le_one (clamp_nonneg _) (clamp_le_one _)⟩

end Quintic
