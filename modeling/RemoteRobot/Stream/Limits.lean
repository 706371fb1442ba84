import Mathlib.Tactic.NormNum
import RemoteRobot.Lib.Quintic
import RemoteRobot.Stream.Execution

/-!
# Every target stays inside the joint limits

In exact arithmetic an interpolated point is part of the way between two accepted points, so it is
inside the limits where they are.  For a relative program they are: the points accepted before the
origin is known are checked against it before torque, the later ones when they arrive.
-/

namespace RemoteRobot.Stream

open Py Except

/-- Inside the joint limits of the policy. -/
def InLimits (policy : SafetyPolicy ℚ) (q : Pose ℚ) : Prop :=
  ∀ j, policy.jointMinDeg j ≤ q j ∧ q j ≤ policy.jointMaxDeg j

theorem within_eq_true {lo hi x : ℚ} : within lo hi x = true ↔ lo ≤ x ∧ x ≤ hi := by
  show (decide (lo ≤ x) && decide (x ≤ hi)) = true ↔ _
  simp

/-! ## Interpolation -/

theorem truediv_eq_ok {a b : ℤ} {u : ℚ} (h : (PyFloat.truediv a b : Except Exc ℚ) = .ok u) :
    b ≠ 0 ∧ u = a / b := by
  have h : (if b = 0 then Except.error Exc.zeroDivisionError else .ok ((a : ℚ) / b)) = .ok u := h
  split_ifs at h with hb
  exact ⟨hb, (Except.ok.inj h).symm⟩

/-- An interpolated pose is part of the way from the first point to the second. -/
theorem interpolateQuintic_lerp {p c : TrajectoryPoint ℚ} {t : ℤ} {q : Pose ℚ}
    (h : interpolateQuintic p c t = .ok q) :
    ∃ s : ℚ, (0 ≤ s ∧ s ≤ 1) ∧ ∀ j, q j = p.qDeg j + (c.qDeg j - p.qDeg j) * s := by
  unfold interpolateQuintic at h
  split_ifs at h with hp hc
  · cases h
    exact ⟨0, ⟨le_rfl, zero_le_one⟩, fun j => by ring⟩
  · cases h
    exact ⟨1, ⟨zero_le_one, le_rfl⟩, fun j => by ring⟩
  · obtain ⟨u, hu, h⟩ := bind_eq_ok.1 h
    obtain ⟨-, rfl⟩ := truediv_eq_ok hu
    cases h
    have hpos : (0 : ℚ) < ((c.tUs - p.tUs : ℤ) : ℚ) := by
      exact_mod_cast (by omega : 0 < c.tUs - p.tUs)
    have h₀ : (0 : ℚ) ≤ ((t - p.tUs : ℤ) : ℚ) / ((c.tUs - p.tUs : ℤ) : ℚ) := by
      refine div_nonneg ?_ hpos.le
      exact_mod_cast (by omega : 0 ≤ t - p.tUs)
    have h₁ : ((t - p.tUs : ℤ) : ℚ) / ((c.tUs - p.tUs : ℤ) : ℚ) ≤ 1 := by
      rw [div_le_one hpos]
      exact_mod_cast (by omega : t - p.tUs ≤ c.tUs - p.tUs)
    exact ⟨Quintic.blend _, ⟨Quintic.blend_nonneg h₀, Quintic.blend_le_one h₀ h₁⟩, fun j => rfl⟩

/-! ## Targets -/

/-- The target the thread is about to send. -/
def Pc.pending : Pc ℚ → Option (Pose ℚ)
  | .read t | .send t _ => some t.target
  | .sendLast q _ => some q
  | _ => none

namespace ProgramRun

variable {r r' : ProgramRun ℚ}

/-- Every accepted point passed the position check. -/
def PointsOk (r : ProgramRun ℚ) : Prop :=
  ∀ p ∈ r.points, r.policy.validatePosition p r.header.coordinateMode = .ok ()

/-- The targets the thread may resolve at an armed origin: those part of the way between two
accepted points. -/
theorem Armed.inLimits {m : Pose ℚ} (h : r.Armed m) (hpoints : r.PointsOk)
    {a b : TrajectoryPoint ℚ} (ha : a ∈ r.points) (hb : b ∈ r.points) {s : ℚ}
    (hs : 0 ≤ s ∧ s ≤ 1) {q target : Pose ℚ} (hq : ∀ j, q j = a.qDeg j + (b.qDeg j - a.qDeg j) * s)
    (htarget : r.resolve q = .ok target) : InLimits r.policy target := by
  intro j
  unfold resolve at htarget
  split at htarget
  · rename_i hmode
    cases htarget
    have hA := hpoints a ha
    have hB := hpoints b hb
    rw [hmode] at hA hB
    have hA := within_eq_true.1 (SafetyPolicy.within_of_validate hA j)
    have hB := within_eq_true.1 (SafetyPolicy.within_of_validate hB j)
    rw [hq]
    exact Quintic.lerp_mem hA hB hs
  · rename_i origin hmode horigin
    cases htarget
    rw [h.origin] at horigin
    cases horigin
    have hresolved := (startChecks_eq_ok.1 h.checks).2 hmode
    have hA := within_eq_true.1 (hresolved a ha j)
    have hB := within_eq_true.1 (hresolved b hb j)
    have hlerp := Quintic.lerp_mem hA hB hs
    have heq : PyFloat.add (m j) (q j) = PyFloat.add (m j) (a.qDeg j) +
        (PyFloat.add (m j) (b.qDeg j) - PyFloat.add (m j) (a.qDeg j)) * s := by
      show m j + q j = m j + a.qDeg j + (m j + b.qDeg j - (m j + a.qDeg j)) * s
      rw [hq]
      ring
    show _ ≤ PyFloat.add (m j) (q j) ∧ PyFloat.add (m j) (q j) ≤ _
    rw [heq]
    exact hlerp
  · cases htarget

/-- A target between two accepted points. -/
theorem Armed.interpolate_inLimits {m : Pose ℚ} (h : r.Armed m) (hpoints : r.PointsOk)
    {a b : TrajectoryPoint ℚ} (ha : a ∈ r.points) (hb : b ∈ r.points) {cursorUs : ℤ}
    {target : Pose ℚ} (htarget : r.interpolate a b cursorUs = .ok target) :
    InLimits r.policy target := by
  unfold interpolate at htarget
  obtain ⟨q, hq, htarget⟩ := bind_eq_ok.1 htarget
  obtain ⟨s, hs, hlerp⟩ := interpolateQuintic_lerp (liftBuiltin_eq_ok.1 hq)
  exact h.inLimits hpoints ha hb hs hlerp htarget

/-- The resolved last point. -/
theorem Armed.resolve_inLimits {m : Pose ℚ} (h : r.Armed m) (hpoints : r.PointsOk)
    {a : TrajectoryPoint ℚ} (ha : a ∈ r.points) {target : Pose ℚ}
    (htarget : r.resolve a.qDeg = .ok target) : InLimits r.policy target := by
  refine h.inLimits hpoints ha ha ⟨le_rfl, zero_le_one⟩ (fun j => ?_) htarget
  ring

/-- The running thread is armed. -/
theorem RunOk.armed_of_running (h : r.RunOk) (hstage : r.pc.stage = .running) :
    ∃ m, r.Armed m := by
  have hbackend := h.backend
  have henabled : Session .enabled r.calls := by
    unfold BackendOk at hbackend
    cases hpc : r.pc <;> rw [hpc] at hbackend hstage <;> first | exact hbackend.1 | cases hstage
  obtain ⟨m, hm⟩ := henabled.exists_enable
  exact ⟨m, h.armed.enabled m hm⟩

/-- All targets, sent and pending, are inside the limits. -/
structure LimitsOk (r : ProgramRun ℚ) : Prop where
  points : r.PointsOk
  pending : ∀ q, r.pc.pending = some q → InLimits r.policy q
  sent : ∀ q ∈ r.targets, InLimits r.policy q

theorem LimitsOk.same (h : r.LimitsOk) (hcfg : r'.toRunConfig = r.toRunConfig)
    (hpoints : r'.points = r.points) (hpending : r'.pc.pending = none ∨ r'.pc.pending = r.pc.pending)
    (htargets : r'.targets = r.targets) : r'.LimitsOk := by
  refine ⟨?_, fun q hq => ?_, fun q hq => ?_⟩
  · unfold PointsOk
    rw [hcfg, hpoints]
    exact h.points
  · rcases hpending with hp | hp
    · rw [hp] at hq
      cases hq
    · rw [hcfg]
      exact h.pending q (hp ▸ hq)
  · rw [hcfg]
    exact h.sent q (htargets ▸ hq)

/-- A target that was pending is sent. -/
theorem LimitsOk.send (h : r.LimitsOk) (hcfg : r'.toRunConfig = r.toRunConfig)
    (hpoints : r'.points = r.points) (hpending : r'.pc.pending = none) {q : Pose ℚ}
    (hq : r.pc.pending = some q) (htargets : r'.targets = r.targets ++ [q]) : r'.LimitsOk := by
  refine ⟨?_, fun q hq => ?_, fun q' hq' => ?_⟩
  · unfold PointsOk
    rw [hcfg, hpoints]
    exact h.points
  · rw [hpending] at hq
    cases hq
  · rw [htargets] at hq'
    rw [hcfg]
    rcases List.mem_append.1 hq' with hq' | hq'
    · exact h.sent q' hq'
    · cases List.mem_singleton.1 hq'
      exact h.pending q hq

theorem LimitsOk.executed (h : r.LimitsOk) (hrun : r.RunOk) (hx : Executed r r') :
    r'.LimitsOk := by
  cases hx with
  | locate hpc hcursor hi hprevious hcurrent htarget =>
    obtain ⟨m, hm⟩ := hrun.armed_of_running (by rw [hpc]; rfl)
    refine ⟨h.points, fun q hq => ?_, h.sent⟩
    cases hq
    exact hm.interpolate_inLimits h.points (List.mem_of_getElem? hprevious)
      (List.mem_of_getElem? hcurrent) htarget
  | reachEnd hpc hcursor hfinal hlast hle hq =>
    obtain ⟨m, hm⟩ := hrun.armed_of_running (by rw [hpc]; rfl)
    refine ⟨h.points, fun q hq => ?_, h.sent⟩
    cases hq
    exact hm.resolve_inLimits h.points (List.mem_of_getLast? hlast) hq
  | send hpc =>
    exact h.send rfl rfl rfl (by rw [hpc]; rfl) (targets_call _)
  | sendLast hpc =>
    exact h.send rfl rfl rfl (by rw [hpc]; rfl) (targets_call _)
  | read hpc =>
    refine h.same rfl rfl (.inr ?_) ((targets_call _).trans (List.append_nil _))
    rw [hpc]
    rfl
  | fail htry hcalls =>
    rcases hcalls with rfl | ⟨c, hc, rfl⟩
    · exact h.same rfl rfl (.inl rfl) (congrArg (List.filterMap _) (List.append_nil _))
    · cases hpc : r.pc <;> rw [hpc] at hc <;> cases hc
      · exact h.same rfl rfl (.inl rfl) ((targets_call _).trans (List.append_nil _))
      · exact h.same rfl rfl (.inl rfl) ((targets_call _).trans (List.append_nil _))
      · exact h.same rfl rfl (.inl rfl) ((targets_call _).trans (List.append_nil _))
      · exact h.send rfl rfl rfl (by rw [hpc]; rfl) (targets_call _)
      · exact h.send rfl rfl rfl (by rw [hpc]; rfl) (targets_call _)
  | create hpc | prepare hpc | enable hpc | holdRead hpc | holdFail hpc | holdSend hpc | close hpc =>
    exact h.same rfl rfl (.inl rfl) ((targets_call _).trans (List.append_nil _))
  | _ => exact h.same rfl rfl (.inl rfl) rfl

variable [Sha256]

theorem LimitsOk.step (h : r.LimitsOk) (hrun : r.RunOk) {label : Label ℚ}
    (hs : r.step label = some r') : r'.LimitsOk := by
  refine step_induction hs h (fun c _ _ hc => ?_) (fun hstart => ?_)
    (fun _ _ => h.same rfl rfl (.inr rfl) rfl) (fun _ => h.same rfl rfl (.inr rfl) rfl) ?_
    (h.executed hrun)
  · refine ⟨fun p hp => ?_, h.pending, h.sent⟩
    rcases List.mem_append.1 hp with hp | hp
    · exact h.points p hp
    · exact ((validatePoints_eq_ok.1 hc.points).1 p hp).1
  · obtain ⟨-, -, -, -, rfl⟩ := start_eq_ok.1 hstart
    exact h.same rfl rfl (.inl rfl) rfl
  · unfold ProgramRun.connectionLost
    split
    · exact h.same rfl rfl (.inr rfl) rfl
    · exact h.same rfl rfl (.inr rfl) rfl
    · exact h

theorem limitsOk_of_reachable {cfg : RunConfig ℚ} {now : ℚ}
    (h : Transition.Reachable ProgramRun.step (init cfg now) r) : r.LimitsOk := by
  have hinv : r.RunOk ∧ r.LimitsOk := by
    refine h.invariant (I := fun s => s.RunOk ∧ s.LimitsOk) ?_ ?_
    · rintro s l s' ⟨hrun, hlimits⟩ hs
      exact ⟨hrun.step hs, hlimits.step hrun hs⟩
    · exact ⟨runOk_init cfg now, fun _ hp => (by cases hp), fun _ hq => (by cases hq),
        fun _ hq => (by cases hq)⟩
  exact hinv.2

/-- Every trajectory target of every run is inside the joint limits of its policy. -/
theorem targets_inLimits (cfg : RunConfig ℚ) (now : ℚ) (s : ProgramRun ℚ)
    (hs : Transition.Reachable ProgramRun.step (init cfg now) s) (purpose : Purpose) (q : Pose ℚ)
    (hsent : .sendQ purpose q ∈ s.calls) (hpurpose : purpose ≠ .hold) (j : Joint) :
    cfg.policy.jointMinDeg j ≤ q j ∧ q j ≤ cfg.policy.jointMaxDeg j := by
  have h := limitsOk_of_reachable hs
  have hmem : q ∈ s.targets := by
    refine List.mem_filterMap.2 ⟨_, hsent, ?_⟩
    cases purpose <;> first | rfl | exact absurd rfl hpurpose
  have hq := h.sent q hmem j
  rw [config_of_reachable hs] at hq
  exact hq

end ProgramRun

/-! ## A streamed relative program -/

section Demo

open ProgramRun

local instance limitsHash : Sha256 := lengthHash

/-- The demo program in two chunks, the second sent while the first is executed. -/
def demoStream : List (ProgramRun.Label ℚ) :=
  demoArming (demoChunk 0 (demoPoints.take 2) false) ++ demoTick 0 ++
    [Label.exec .internal, .exec (.clock 0), .append (demoChunk 1 (demoPoints.drop 2) true),
      .heartbeat 2] ++ demoTick (5 / 2)

theorem targets_inLimits_demo :
    ∃ s q, Transition.run ProgramRun.step (init (demoConfig .streaming demoDigest) 0) demoStream =
        some s ∧ .sendQ (.interpolated 2500000) q ∈ s.calls ∧
      ∀ j, (demoConfig .streaming demoDigest).policy.jointMinDeg j ≤ q j ∧
        q j ≤ (demoConfig .streaming demoDigest).policy.jointMaxDeg j := by
  have hrun : ((Transition.run ProgramRun.step (init (demoConfig .streaming demoDigest) 0)
      demoStream).map fun s => s.calls.any (BackendCall.samples 2500000)) = some true := by
    decide +kernel
  obtain ⟨s, hs, he⟩ := Option.map_eq_some_iff.1 hrun
  obtain ⟨c, hc, hsend⟩ := List.any_eq_true.1 he
  obtain ⟨q, rfl⟩ := BackendCall.samples_iff.1 hsend
  exact ⟨s, q, hs, hc, targets_inLimits _ 0 s ⟨_, hs⟩ _ q hc (fun h => by cases h)⟩

end Demo

end RemoteRobot.Stream
