import RemoteRobot.Stream.Limits
import RemoteRobot.Stream.Stopping

/-!
# The calibrated travel

`limits_from_calibration` of `robot_server.py`: the policy of a server with an arm is clamped to the
travel its calibration file records.  Every run of such a server has the clamped policy, so in exact
arithmetic no target leaves the travel, and the firmware has nothing to clamp.
-/

namespace RemoteRobot.Stream

open Py Except

variable {F : Type}

/-! ## Reading a calibration -/

/-- What `limits_from_calibration` raises. -/
inductive CalibrationError (F : Type) where
  | systemExit (m : Message F)
  | builtin (e : Exc)

/-- The recorded range of a joint, as positions of its servo. -/
structure RawRange (F : Type) where
  min : F
  max : F

section Calibration

variable [PyFloat F]

def rawRange (calibration : Val F) (j : Joint) : Except Exc (RawRange F) := do
  let entry ← calibration.getItem j.name
  let low ← entry.getItem "range_min"
  let min ← pyFloat low
  let high ← entry.getItem "range_max"
  let max ← pyFloat high
  .ok ⟨min, max⟩

/-- `(raw - mid) * 360 / resolution` -/
def toDegrees (resolution : ℕ) (mid raw : F) : Except Exc F :=
  PyFloat.div (PyFloat.mul (PyFloat.sub raw mid) (PyFloat.lit 360)) (PyFloat.lit resolution)

/-- `joint_min, joint_max` -/
def jointTravel (resolution : ℕ) (marginDeg : F) (j : Joint) (r : RawRange F) :
    Except Exc (F × F) :=
  if j = .gripper then .ok (PyFloat.lit 0, PyFloat.lit 100)
  else do
    let mid ← PyFloat.div (PyFloat.add r.min r.max) (PyFloat.lit 2)
    let low ← toDegrees resolution mid r.min
    let high ← toDegrees resolution mid r.max
    .ok (PyFloat.add low marginDeg, PyFloat.sub high marginDeg)

/-- `max(x, y)` -/
def pyMax (x y : F) : F := if PyFloat.lt x y then y else x

/-- `min(x, y)` -/
def pyMin (x y : F) : F := if PyFloat.lt y x then y else x

def liftCalibration {α : Type} : Except Exc α → Except (CalibrationError F) α
  | .ok a => .ok a
  | .error e => .error (.builtin e)

/-- The turn of the loop for a joint: its lower and upper limit. -/
def jointLimits (resolution : ℕ) (calibration : Val F) (policy : SafetyPolicy F) (marginDeg : F)
    (j : Joint) : Except (CalibrationError F) (F × F) := do
  let r ← liftCalibration (rawRange calibration j)
  let (jointMin, jointMax) ← liftCalibration (jointTravel resolution marginDeg j r)
  if PyFloat.le jointMax jointMin then
    .error (.systemExit ⟨"calibrated travel for % is smaller than the % deg margin",
      [.str (py j.name), .float marginDeg]⟩)
  else .ok (pyMax jointMin (policy.jointMinDeg j), pyMin jointMax (policy.jointMaxDeg j))

/-- `set(JOINTS) - set(calibration)` -/
def missingJoints (calibration : Val F) : Except Exc (List Joint) := do
  let names ← calibration.iter
  let names ← orRaise (toKeys names) .typeError
  .ok (joints.filter fun j => !hasStr j.name names)

/-- `limits_from_calibration`, from the JSON value of the file on; `resolution` is that of the
servo's model less one. -/
def limitsFromCalibration (resolution : ℕ) (calibrationPath : Str) (calibration : Val F)
    (policy : SafetyPolicy F) (marginDeg : F) :
    Except (CalibrationError F) (SafetyPolicy F) := do
  let missing ← liftCalibration (missingJoints calibration)
  if missing ≠ [] then
    .error (.systemExit ⟨"% is missing joints: %",
      [.str calibrationPath, strList (sortedSet (missing.map fun j => py j.name))]⟩)
  else do
    let limits ← joints.mapM fun j =>
      (jointLimits resolution calibration policy marginDeg j).map fun l => (j, l)
    .ok { policy with
      jointMinDeg := fun j => ((limits.lookup j).map Prod.fst).getD (policy.jointMinDeg j)
      jointMaxDeg := fun j => ((limits.lookup j).map Prod.snd).getD (policy.jointMaxDeg j) }

end Calibration

/-! ## What the clamped policy admits -/

theorem liftCalibration_eq_ok {α : Type} {x : Except Exc α} {a : α} :
    (liftCalibration x : Except (CalibrationError F) α) = .ok a ↔ x = .ok a := by
  cases x <;> simp [liftCalibration]

/-- The pose is inside the recorded travel of the joint, the margin off at both ends; the gripper is
in percent. -/
def InTravel (resolution : ℕ) (calibration : Val ℚ) (marginDeg : ℚ) (j : Joint) (x : ℚ) : Prop :=
  if j = .gripper then 0 ≤ x ∧ x ≤ 100
  else ∃ r, rawRange calibration j = .ok r ∧
    (r.min - (r.min + r.max) / 2) * 360 / resolution + marginDeg ≤ x ∧
      x ≤ (r.max - (r.min + r.max) / 2) * 360 / resolution - marginDeg

variable {resolution : ℕ} {calibration : Val ℚ} {policy policy' : SafetyPolicy ℚ} {marginDeg : ℚ}

theorem div_eq_ok {x y z : ℚ} (h : (PyFloat.div x y : Except Exc ℚ) = .ok z) : z = x / y := by
  have h : (if y = 0 then Except.error Exc.zeroDivisionError else .ok (x / y)) = .ok z := h
  split_ifs at h
  exact (Except.ok.inj h).symm

theorem le_pyMax (x y : ℚ) : x ≤ pyMax x y ∧ y ≤ pyMax x y := by
  have h : pyMax x y = if x < y then y else x := by simp [pyMax, PyFloat.lt]
  rw [h]
  split_ifs with hlt
  · exact ⟨hlt.le, le_rfl⟩
  · exact ⟨le_rfl, not_lt.1 hlt⟩

theorem pyMin_le (x y : ℚ) : pyMin x y ≤ x ∧ pyMin x y ≤ y := by
  have h : pyMin x y = if y < x then y else x := by simp [pyMin, PyFloat.lt]
  rw [h]
  split_ifs with hlt
  · exact ⟨hlt.le, le_rfl⟩
  · exact ⟨le_rfl, not_lt.1 hlt⟩

/-- The limits of a joint are inside its travel and inside the policy. -/
theorem jointLimits_spec {j : Joint} {l : ℚ × ℚ}
    (h : jointLimits resolution calibration policy marginDeg j = .ok l) {x : ℚ} (hlow : l.1 ≤ x)
    (hhigh : x ≤ l.2) : InTravel resolution calibration marginDeg j x ∧
      policy.jointMinDeg j ≤ x ∧ x ≤ policy.jointMaxDeg j := by
  obtain ⟨r, hr, h⟩ := bind_eq_ok.1 h
  obtain ⟨⟨jointMin, jointMax⟩, ht, h⟩ := bind_eq_ok.1 h
  rw [liftCalibration_eq_ok] at hr ht
  simp only at h
  split_ifs at h
  cases h
  have hmin := (le_pyMax jointMin (policy.jointMinDeg j)).1.trans hlow
  have hmax := hhigh.trans (pyMin_le jointMax (policy.jointMaxDeg j)).1
  refine ⟨?_, (le_pyMax _ _).2.trans hlow, hhigh.trans (pyMin_le _ _).2⟩
  unfold InTravel
  unfold jointTravel at ht
  split_ifs at ht with hj
  · cases ht
    rw [if_pos hj]
    exact ⟨hmin, hmax⟩
  · obtain ⟨mid, hmid, ht⟩ := bind_eq_ok.1 ht
    obtain ⟨low, hl, ht⟩ := bind_eq_ok.1 ht
    obtain ⟨high, hh, ht⟩ := bind_eq_ok.1 ht
    cases ht
    obtain rfl := div_eq_ok hmid
    obtain rfl := div_eq_ok hl
    obtain rfl := div_eq_ok hh
    rw [if_neg hj]
    exact ⟨r, hr, hmin, hmax⟩

theorem lookup_of_forall₂ {β : Type} {f : Joint → Except (CalibrationError F) β} {js : List Joint}
    {ls : List (Joint × β)}
    (h : List.Forall₂ (fun j l => (f j).map (fun b => (j, b)) = .ok l) js ls) {j : Joint}
    (hj : j ∈ js) : ∃ b, ls.lookup j = some b ∧ f j = .ok b := by
  induction h with
  | nil => cases hj
  | @cons k l js ls hl _ ih =>
    obtain ⟨b, hb, rfl⟩ := map_eq_ok.1 hl
    by_cases hjk : j = k
    · subst hjk
      exact ⟨b, by simp, hb⟩
    · obtain ⟨b', hb', hf⟩ := ih ((List.mem_cons.1 hj).resolve_left hjk)
      refine ⟨b', ?_, hf⟩
      rw [List.lookup_cons, beq_eq_false_iff_ne.2 hjk, hb']

/-- What is inside the clamped limits is inside the recorded travel and the limits before. -/
theorem inTravel_of_limits {path : Str}
    (h : limitsFromCalibration resolution path calibration policy marginDeg = .ok policy')
    {q : Pose ℚ} (hq : InLimits policy' q) :
    InLimits policy q ∧ ∀ j, InTravel resolution calibration marginDeg j (q j) := by
  obtain ⟨missing, -, h⟩ := bind_eq_ok.1 h
  split_ifs at h
  obtain ⟨limits, hlimits, h⟩ := bind_eq_ok.1 h
  cases h
  have hspec : ∀ j, InTravel resolution calibration marginDeg j (q j) ∧
      policy.jointMinDeg j ≤ q j ∧ q j ≤ policy.jointMaxDeg j := by
    intro j
    obtain ⟨l, hl, hf⟩ := lookup_of_forall₂ (mapM_eq_ok.1 hlimits) (mem_joints j)
    obtain ⟨hlow, hhigh⟩ := hq j
    simp only [hl, Option.map_some, Option.getD_some] at hlow hhigh
    exact jointLimits_spec hf hlow hhigh
  exact ⟨fun j => (hspec j).2, fun j => (hspec j).1⟩

/-! ## The runs of a server -/

namespace ProgramController

section Policy

variable {c c' : ProgramController F} [PyFloat F] [FloatTrunc F] [FloatRepr F] [Sha256]

/-- The settings stay, and every run has the policy of the settings. -/
structure PolicyOk (settings : Settings F) (c : ProgramController F) : Prop where
  kept : c.toSettings = settings
  opening : ∀ i cfg, c.opening = some (i, cfg) → cfg.policy = settings.policy
  runs : ∀ (j : ℕ) (run : ProgramRun F), c.runs[j]? = some run → run.policy = settings.policy

omit [PyFloat F] [FloatTrunc F] [FloatRepr F] [Sha256] in
theorem policy_of_openRun {request : OpenRequest} {cfg : RunConfig F}
    (h : c.openRun request = .ok cfg) : cfg.policy = c.policy := by
  unfold openRun at h
  split at h
  · cases h
  · cases h
  · simp only [bind_eq_ok, exists_unit, raiseWhen_eq_ok] at h
    obtain ⟨-, -, -, -, h⟩ := h
    cases h
    rfl

theorem PolicyOk.moved {settings : Settings F} (h : c.PolicyOk settings) (hmoved : Moved c c') :
    c'.PolicyOk settings := by
  refine ⟨?_, fun i cfg hopening => ?_, fun j run' hrun' => ?_⟩
  · cases hmoved <;> exact h.kept
  · cases hmoved with
    | opened hfree hopen =>
      cases hopening
      rw [policy_of_openRun hopen, h.kept]
    | created => cases hopening
    | idle | ran => exact h.opening i cfg hopening
  · rcases hmoved.origin hrun' with ⟨run, hrun, rfl | ⟨label, hstep⟩⟩ |
      ⟨i, cfg, now, hopening, -, -, rfl⟩
    · exact h.runs j run' hrun
    · rw [ProgramRun.config_of_step hstep]
      exact h.runs j run hrun
    · exact h.opening i cfg hopening

theorem policyOk_of_reachable {settings : Settings F}
    (h : Transition.Reachable step (init settings) c) : c.PolicyOk settings :=
  h.invariant (fun _ _ _ hc hs => hc.moved (moved_of_step hs))
    ⟨rfl, fun _ _ h => (by cases h), fun _ _ h => (by cases h)⟩

end Policy

section Targets

variable [Sha256] {c c' : ProgramController ℚ}

/-- The targets of every run are inside the limits of its policy. -/
structure TargetsOk (c : ProgramController ℚ) : Prop where
  controller : c.ControllerOk
  runs : ∀ (j : ℕ) (run : ProgramRun ℚ), c.runs[j]? = some run → run.LimitsOk

theorem TargetsOk.moved (h : c.TargetsOk) (hmoved : Moved c c') : c'.TargetsOk := by
  refine ⟨h.controller.moved hmoved, fun j run' hrun' => ?_⟩
  rcases hmoved.origin hrun' with ⟨run, hrun, rfl | ⟨label, hstep⟩⟩ | ⟨i, cfg, now, -, -, -, rfl⟩
  · exact h.runs j run' hrun
  · exact (h.runs j run hrun).step (h.controller.runs j run hrun) hstep
  · exact ProgramRun.limitsOk_of_reachable (.refl _)

/-- In exact arithmetic a server whose policy was clamped to the calibration of its arm sends no
target of any run outside the recorded travel, or outside the limits the policy had before. -/
theorem targets_inTravel {path : Str} {settings : Settings ℚ}
    (h : limitsFromCalibration resolution path calibration policy marginDeg = .ok settings.policy)
    (hreach : Transition.Reachable step (init settings) c) {run : ProgramRun ℚ}
    (hrun : run ∈ c.runs) {purpose : Purpose} {q : Pose ℚ} (hsent : .sendQ purpose q ∈ run.calls)
    (hpurpose : purpose ≠ .hold) :
    InLimits policy q ∧ ∀ j, InTravel resolution calibration marginDeg j (q j) := by
  have hok : c.TargetsOk := hreach.invariant (fun _ _ _ hc hs => hc.moved (moved_of_step hs))
    ⟨controllerOk_init settings, fun _ _ h => (by cases h)⟩
  obtain ⟨j, hj⟩ := List.getElem?_of_mem hrun
  have hmem : q ∈ run.targets := by
    refine List.mem_filterMap.2 ⟨_, hsent, ?_⟩
    cases purpose <;> first | rfl | exact absurd rfl hpurpose
  have hlimits := (hok.runs j run hj).sent q hmem
  rw [(policyOk_of_reachable hreach).runs j run hj] at hlimits
  exact inTravel_of_limits h hlimits

end Targets

end ProgramController

section Demo

open ProgramController

local instance calibrationHash : Sha256 := lengthHash

/-- An arm whose joints all reach a quarter turn either way. -/
def demoCalibration : Val ℚ :=
  dictOf (joints.map fun j =>
    (j.name, dictOf [("range_min", .int 1023), ("range_max", .int 3071)]))

def demoArmSettings : Settings ℚ :=
  { demoSettings with
    policy := (limitsFromCalibration 4095 (py "arm") demoCalibration .default 2).toOption.getD
      .default }

/-- A run of the server sends the target of this cursor. -/
def sendsAt (cursorUs : ℤ) (c : ProgramController ℚ) : Bool :=
  c.runs.any fun run => run.calls.any (BackendCall.samples cursorUs)

theorem targets_inTravel_demo :
    ∃ c run q, Transition.run step (init demoArmSettings)
        ([Label.message 0 (.openRun demoRequest), .create 0] ++ demoRun.map (demoLabel 0 0)) = some c ∧
      run ∈ c.runs ∧ .sendQ (.interpolated 0) q ∈ run.calls ∧
      ∀ j, InTravel 4095 demoCalibration 2 j (q j) := by
  have hlimits : limitsFromCalibration 4095 (py "arm") demoCalibration .default 2 =
      .ok demoArmSettings.policy := by
    have hok : (limitsFromCalibration 4095 (py "arm") demoCalibration
        (.default : SafetyPolicy ℚ) 2).isOk = true := by decide +kernel
    cases h : limitsFromCalibration 4095 (py "arm") demoCalibration (.default : SafetyPolicy ℚ) 2
      with
    | ok policy => simp [demoArmSettings, h, Except.toOption]
    | error e => simp [h, Except.isOk, Except.toBool] at hok
  have hrun : (Transition.run step (init demoArmSettings)
      ([Label.message 0 (.openRun demoRequest), .create 0] ++ demoRun.map (demoLabel 0 0))).any
      (sendsAt 0) = true := by decide +kernel
  obtain ⟨c, hc, he⟩ := (Option.any_eq_true _ _).1 hrun
  obtain ⟨run, hmem, he⟩ := List.any_eq_true.1 he
  obtain ⟨call, hcall, hsend⟩ := List.any_eq_true.1 he
  obtain ⟨q, rfl⟩ := BackendCall.samples_iff.1 hsend
  exact ⟨c, run, q, hc, hmem, hcall,
    (targets_inTravel hlimits ⟨_, hc⟩ hmem hcall (fun h => by cases h)).2⟩

end Demo

end RemoteRobot.Stream
