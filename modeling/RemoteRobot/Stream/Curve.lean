import RemoteRobot.Lib.Smoothstep
import RemoteRobot.Stream.Limits

/-!
# What a checked segment promises of the motion

`validate_segment` looks at two points only.  In exact arithmetic the curve `interpolate_quintic`
draws between them keeps the velocity and the acceleration limits at all times, for the multipliers
of the check are the peaks of the smoothstep, the second one rounded up.
-/

namespace RemoteRobot.Stream

open Py Except

/-! ## The curve of a segment -/

/-- `t_us / 1_000_000` -/
noncomputable def seconds (tUs : ℤ) : ℝ := tUs / 1000000

/-- The joint's value along the segment, by the time in seconds. -/
noncomputable def curve (previous current : TrajectoryPoint ℚ) (j : Joint) : ℝ → ℝ :=
  Quintic.move (previous.qDeg j) (current.qDeg j) (seconds previous.tUs)
    (seconds current.tUs - seconds previous.tUs)

theorem seconds_lt {s t : ℤ} : seconds s < seconds t ↔ s < t := by
  unfold seconds
  rw [div_lt_div_iff_of_pos_right (by norm_num), Int.cast_lt]

theorem seconds_sub (s t : ℤ) : seconds t - seconds s = ((t - s : ℤ) : ℝ) / 1000000 := by
  unfold seconds
  push_cast
  ring

theorem cast_blend (u : ℚ) : ((Quintic.blend u : ℚ) : ℝ) = Quintic.blend (u : ℝ) := by
  unfold Quintic.blend
  push_cast
  ring

/-- `interpolate_quintic` is on the curve. -/
theorem interpolateQuintic_curve {previous current : TrajectoryPoint ℚ}
    (h : previous.tUs < current.tUs) (tUs : ℤ) :
    ∃ q, interpolateQuintic previous current tUs = .ok q ∧
      ∀ j, (q j : ℝ) = curve previous current j (seconds tUs) := by
  have hT : 0 < seconds current.tUs - seconds previous.tUs := sub_pos.2 (seconds_lt.2 h)
  unfold interpolateQuintic
  split_ifs with hp hc
  · refine ⟨_, rfl, fun j => ?_⟩
    have harg : (seconds tUs - seconds previous.tUs) /
        (seconds current.tUs - seconds previous.tUs) ≤ 0 :=
      div_nonpos_of_nonpos_of_nonneg (sub_nonpos.2 (not_lt.1 fun hlt =>
        absurd (seconds_lt.1 hlt) (not_lt.2 hp))) hT.le
    unfold curve Quintic.move Quintic.smoothstep
    rw [Quintic.clamp_of_le_zero harg]
    simp [Quintic.blend]
  · refine ⟨_, rfl, fun j => ?_⟩
    have harg : 1 ≤ (seconds tUs - seconds previous.tUs) /
        (seconds current.tUs - seconds previous.tUs) := by
      rw [one_le_div hT]
      have hle : seconds current.tUs ≤ seconds tUs := not_lt.1 fun hlt =>
        absurd (seconds_lt.1 hlt) (not_lt.2 hc)
      linarith
    unfold curve Quintic.move Quintic.smoothstep
    rw [Quintic.clamp_of_one_le harg]
    norm_num [Quintic.blend]
  · have hdt : current.tUs - previous.tUs ≠ 0 := by omega
    have hu : (PyFloat.truediv (tUs - previous.tUs) (current.tUs - previous.tUs) : Except Exc ℚ) =
        .ok (((tUs - previous.tUs : ℤ) : ℚ) / ((current.tUs - previous.tUs : ℤ) : ℚ)) := if_neg hdt
    rw [hu]
    refine ⟨_, rfl, fun j => ?_⟩
    have hlo : seconds previous.tUs < seconds tUs := seconds_lt.2 (not_le.1 hp)
    have hhi : seconds tUs < seconds current.tUs := seconds_lt.2 (not_le.1 hc)
    have hclamp := Quintic.clamp_of_mem (div_nonneg (sub_nonneg.2 hlo.le) hT.le)
      ((div_le_one hT).2 (sub_le_sub_right hhi.le (seconds previous.tUs)))
    have harg : (seconds tUs - seconds previous.tUs) /
        (seconds current.tUs - seconds previous.tUs) =
        (((tUs - previous.tUs : ℤ) : ℚ) / ((current.tUs - previous.tUs : ℤ) : ℚ) : ℚ) := by
      rw [seconds_sub, seconds_sub, div_div_div_cancel_right₀ (by norm_num)]
      push_cast
      rfl
    unfold curve Quintic.move Quintic.smoothstep
    rw [hclamp, harg, ← cast_blend]
    show ((previous.qDeg j + (current.qDeg j - previous.qDeg j) * Quintic.blend _ : ℚ) : ℝ) = _
    push_cast
    rfl

/-! ## What the check compares -/

namespace SafetyPolicy

variable {policy : SafetyPolicy ℚ} {previous current : TrajectoryPoint ℚ}

theorem liftBuiltin_ne_protocol {α : Type} {x : Except Exc α} {e : ProtocolError ℚ} :
    (liftBuiltin x : Except (Raised ℚ) α) ≠ .error (.protocol e) := by
  cases x <;> nofun

/-- The distance a joint moves. -/
def distance (previous current : TrajectoryPoint ℚ) (j : Joint) : ℚ :=
  |current.qDeg j - previous.qDeg j|

/-- `dt_s` -/
def duration (previous current : TrajectoryPoint ℚ) : ℚ :=
  ((current.tUs - previous.tUs : ℤ) : ℚ) / 1000000

theorem cast_duration (previous current : TrajectoryPoint ℚ) :
    (duration previous current : ℝ) = seconds current.tUs - seconds previous.tUs := by
  rw [seconds_sub]
  unfold duration
  push_cast
  rfl

theorem cast_distance (previous current : TrajectoryPoint ℚ) (j : Joint) :
    (distance previous current j : ℝ) = |(current.qDeg j : ℝ) - previous.qDeg j| := by
  unfold distance
  push_cast
  rfl

theorem div_eq_ok {x y z : ℚ} : (PyFloat.div x y : Except Exc ℚ) = .ok z ↔ y ≠ 0 ∧ x / y = z := by
  show (if y = 0 then Except.error Exc.zeroDivisionError else .ok (x / y)) = .ok z ↔ _
  split_ifs with hy
  · simp [hy]
  · simp [hy]

theorem duration_of_truediv {dtS : ℚ}
    (h : (PyFloat.truediv (current.tUs - previous.tUs) 1000000 : Except Exc ℚ) = .ok dtS) :
    dtS = duration previous current := (truediv_eq_ok h).2

theorem sub_ne_zero_of_duration (h : duration previous current ≠ 0) :
    current.tUs - previous.tUs ≠ 0 := by
  intro h0
  refine h ?_
  unfold duration
  rw [h0]
  norm_num

/-- An accepted segment takes time, and no joint's peaks are above the limits. -/
theorem peaks_of_validate (h : policy.validateSegment previous current = .ok ()) :
    previous.tUs < current.tUs ∧ ∀ j,
      1.875 * distance previous current j / duration previous current ≤ policy.maxVelocityDegS ∧
      5.773503 * distance previous current j /
        (duration previous current * duration previous current) ≤ policy.maxAccelerationDegS2 := by
  unfold validateSegment at h
  obtain ⟨_, hmin, h⟩ := bind_eq_ok.1 h
  rw [raiseWhen_eq_ok] at hmin
  obtain ⟨dtS, hdt, h⟩ := bind_eq_ok.1 h
  obtain rfl := duration_of_truediv (liftBuiltin_eq_ok.1 hdt)
  have hjoint : ∀ j, duration previous current ≠ 0 ∧
      1.875 * distance previous current j / duration previous current ≤ policy.maxVelocityDegS ∧
      5.773503 * distance previous current j /
        (duration previous current * duration previous current) ≤
          policy.maxAccelerationDegS2 := by
    intro j
    have hj := forM_eq_ok.1 h j (mem_joints j)
    simp only [bind_eq_ok, liftBuiltin_eq_ok, div_eq_ok, raiseWhen_eq_ok, exists_unit] at hj
    obtain ⟨_, ⟨hne, rfl⟩, _, ⟨-, rfl⟩, hvelocity, hacceleration⟩ := hj
    refine ⟨hne, not_lt.1 fun hlt => hvelocity ?_, not_lt.1 fun hlt => hacceleration ?_⟩
    · exact decide_eq_true hlt
    · exact decide_eq_true hlt
  have hne := sub_ne_zero_of_duration (hjoint .gripper).1
  exact ⟨by omega, fun j => (hjoint j).2⟩

/-- A segment refused for its velocity takes time, and the joint the error names is too fast. -/
theorem peak_of_velocityLimit {e : ProtocolError ℚ}
    (h : policy.validateSegment previous current = .error (.protocol e))
    (hcode : e.code = .velocityLimit) :
    previous.tUs < current.tUs ∧ ∃ j, ("joint", .str (py j.name)) ∈ e.details ∧
      policy.maxVelocityDegS <
        1.875 * distance previous current j / duration previous current := by
  unfold validateSegment at h
  obtain h | ⟨_, hmin, h⟩ := bind_eq_error.1 h
  · obtain ⟨-, he⟩ := raiseWhen_eq_error.1 h
    cases he
    cases hcode
  rw [raiseWhen_eq_ok] at hmin
  obtain h | ⟨dtS, hdt, h⟩ := bind_eq_error.1 h
  · exact absurd h liftBuiltin_ne_protocol
  obtain rfl := duration_of_truediv (liftBuiltin_eq_ok.1 hdt)
  obtain ⟨j, -, h⟩ := exists_of_forM_eq_error h
  have hraised : duration previous current ≠ 0 ∧ ∃ peak : ℚ,
      1.875 * distance previous current j / duration previous current = peak ∧
        policy.maxVelocityDegS < peak ∧ ("joint", .str (py j.name)) ∈ e.details := by
    obtain h | ⟨peak, hpeak, h⟩ := bind_eq_error.1 h
    · exact absurd h liftBuiltin_ne_protocol
    obtain ⟨hne, hpeak⟩ := div_eq_ok.1 (liftBuiltin_eq_ok.1 hpeak)
    refine ⟨hne, peak, hpeak, ?_⟩
    obtain h | ⟨acceleration, -, h⟩ := bind_eq_error.1 h
    · exact absurd h liftBuiltin_ne_protocol
    obtain h | ⟨-, -, h⟩ := bind_eq_error.1 h
    · obtain ⟨hlt, he⟩ := raiseWhen_eq_error.1 h
      cases he
      exact ⟨of_decide_eq_true hlt, List.mem_cons_self⟩
    · obtain ⟨-, he⟩ := raiseWhen_eq_error.1 h
      cases he
      cases hcode
  obtain ⟨hne, _, rfl, hlt, hmem⟩ := hraised
  have hdt := sub_ne_zero_of_duration hne
  exact ⟨by omega, j, hmem, hlt⟩

/-! ## The motion -/

/-- A segment that passes `validate_segment` is followed within the limits: `interpolate_quintic`
is on a curve that never covers more than the velocity limit allows, whose second derivative stays
inside the acceleration limit and which stays between the two poses.  A segment refused for its
velocity is too fast in the middle, at the joint the error names. -/
theorem validateSegment_curve (policy : SafetyPolicy ℚ) (previous current : TrajectoryPoint ℚ) :
    (policy.validateSegment previous current = .ok () →
      (∀ tUs, ∃ q, interpolateQuintic previous current tUs = .ok q ∧
        ∀ j, (q j : ℝ) = curve previous current j (seconds tUs)) ∧
      ∀ j, (∀ s t, s < t → |curve previous current j t - curve previous current j s| ≤
          policy.maxVelocityDegS * (t - s)) ∧
        Differentiable ℝ (curve previous current j) ∧
        Differentiable ℝ (deriv (curve previous current j)) ∧
        (∀ t, |deriv (deriv (curve previous current j)) t| ≤ policy.maxAccelerationDegS2) ∧
        ∀ t, min (previous.qDeg j : ℝ) (current.qDeg j) ≤ curve previous current j t ∧
          curve previous current j t ≤ max (previous.qDeg j : ℝ) (current.qDeg j)) ∧
    ∀ e, policy.validateSegment previous current = .error (.protocol e) →
      e.code = .velocityLimit → ∃ j, ("joint", .str (py j.name)) ∈ e.details ∧
        (policy.maxVelocityDegS : ℝ) < |deriv (curve previous current j)
          ((seconds previous.tUs + seconds current.tUs) / 2)| := by
  constructor
  · intro h
    obtain ⟨hlt, hpeaks⟩ := peaks_of_validate h
    refine ⟨interpolateQuintic_curve hlt, fun j => ?_⟩
    have hT := sub_pos.2 (seconds_lt.2 hlt)
    obtain ⟨hvelocity, hacceleration⟩ := hpeaks j
    have hvelocity := Rat.cast_le (K := ℝ).2 hvelocity
    have hacceleration := Rat.cast_le (K := ℝ).2 hacceleration
    push_cast [cast_duration, cast_distance] at hvelocity hacceleration
    have hspeed : ∀ t, |deriv (curve previous current j) t| ≤ policy.maxVelocityDegS := by
      intro t
      refine le_trans (Quintic.abs_deriv_move_le hT t) (le_trans (le_of_eq ?_) hvelocity)
      norm_num
    refine ⟨fun s t hst => ?_, fun t => (Quintic.hasDerivAt_move t).differentiableAt,
      fun t => (Quintic.hasDerivAt_deriv_move t).differentiableAt, fun t => ?_, Quintic.move_mem⟩
    · rw [← abs_of_pos (sub_pos.2 hst)]
      exact Quintic.abs_move_sub_le hspeed s t
    · -- the constant of the source is above the peak 10 / √3
      refine le_trans (Quintic.abs_deriv_deriv_move_le hT t) (le_trans ?_ hacceleration)
      have hconst := Quintic.ten_div_sqrt_three_lt.le
      gcongr
  · intro e h hcode
    obtain ⟨hlt, j, hmem, hpeak⟩ := peak_of_velocityLimit h hcode
    refine ⟨j, hmem, ?_⟩
    have hT := sub_pos.2 (seconds_lt.2 hlt)
    have hpeak := Rat.cast_lt (K := ℝ).2 hpeak
    push_cast [cast_duration, cast_distance] at hpeak
    have hmiddle : (seconds previous.tUs + seconds current.tUs) / 2 =
        seconds previous.tUs + (seconds current.tUs - seconds previous.tUs) / 2 := by ring
    unfold curve
    rw [hmiddle, Quintic.abs_deriv_move_middle hT]
    refine lt_of_lt_of_eq hpeak ?_
    norm_num

/-! ### A segment of one second -/

/-- All joints at one value. -/
def pointAt (tUs : ℤ) (value : ℚ) : TrajectoryPoint ℚ := ⟨tUs, fun _ => value⟩

theorem validateSegment_curve_second : ∀ s t, s < t →
    |curve (pointAt 0 0) (pointAt 1000000 16) .gripper t -
      curve (pointAt 0 0) (pointAt 1000000 16) .gripper s| ≤
        ((SafetyPolicy.default : SafetyPolicy ℚ).maxVelocityDegS : ℝ) * (t - s) := by
  have hok : (SafetyPolicy.default.validateSegment (pointAt 0 0)
    (pointAt 1000000 16)).isOk = true := by decide +kernel
  obtain ⟨_, hok⟩ := exists_of_isOk hok
  exact (((validateSegment_curve .default (pointAt 0 0) (pointAt 1000000 16)).1 hok).2 _).1

end SafetyPolicy

end RemoteRobot.Stream
