import RemoteRobot.Lib.Effect
import RemoteRobot.Stream.Stages

/-!
# The SO-101 behind a run

`SO101Backend` of `robot_server.py`, the backend of a run that has an arm.  The follower and its
motor bus are lerobot's; `Follower` has the calls the backend makes of them, each of which may raise,
on a state `σ` that holds the motors.  `Follower.Lawful` is what the backend relies on: torque comes
from `enable_torque` alone, and goals from writing `Goal_Position`.
-/

namespace RemoteRobot.Stream

open Py Effect

/-- What the backend has the bus do; `sync_write` is only used for `Goal_Position`. -/
inductive BusCommand (F : Type) where
  | connect
  | setWriteTimeout
  | disableTorque (numRetry : ℕ)
  | configureMotors
  | write (register : String) (motor : Joint) (value : ℤ)
  | writeGoal (q : Pose F)
  | enableTorque
  | disconnect (disableTorque : Bool)

/-- `SO101Follower`, its configuration and its bus; the motors of the bus are `JOINTS`. -/
structure Follower (F σ : Type) where
  /-- the constructor; returns whether it found a calibration -/
  create : Effect (Raised F) σ Bool
  command : BusCommand F → Effect (Raised F) σ Unit
  isCalibrated : Effect (Raised F) σ Bool
  /-- `sync_read("Present_Position", num_retry)` -/
  presentPosition : ℕ → Effect (Raised F) σ (Pose F)
  calibrationFpath : Str
  positionMode : ℤ
  positionPCoefficient : ℤ
  positionICoefficient : ℤ
  positionDCoefficient : ℤ
  numReadRetries : ℕ

/-- A backend with the motors: whether `self.robot` is set, and the state of the motors. -/
structure Rig (σ : Type) where
  connected : Bool := false
  motors : σ

variable {F σ α : Type}

namespace Rig

/-- A call of the follower. -/
def onMotors (x : Effect (Raised F) σ α) : Effect (Raised F) (Rig σ) α := fun s =>
  ((x s.motors).1, { s with motors := (x s.motors).2 })

/-- `self.robot is not None` -/
def isConnected : Effect (Raised F) (Rig σ) Bool := fun s => (.ok s.connected, s)

/-- `self.robot = robot` or `self.robot = None` -/
def setConnected (connected : Bool) : Effect (Raised F) (Rig σ) Unit := fun s =>
  (.ok (), { s with connected })

end Rig

/-- `np.array([values[name] for name in JOINTS], dtype=float)` -/
def poseArray (q : Pose F) : NdArray F := ⟨[6], joints.map q, rfl⟩

namespace Follower

variable (f : Follower F σ)

/-- The body of the loop over the motors. -/
def configureMotor (motor : Joint) : Effect (Raised F) σ Unit := do
  f.command (.write "Operating_Mode" motor f.positionMode)
  f.command (.write "P_Coefficient" motor f.positionPCoefficient)
  f.command (.write "I_Coefficient" motor f.positionICoefficient)
  f.command (.write "D_Coefficient" motor f.positionDCoefficient)
  if motor = .gripper then do
    f.command (.write "Max_Torque_Limit" motor 500)
    f.command (.write "Protection_Current" motor 250)
    f.command (.write "Overload_Torque" motor 25)
  else pure ()

def prepareConnectedRobotDisabled : Effect (Raised F) σ (NdArray F) := do
  f.command (.disableTorque 0)
  f.command .configureMotors
  joints.forM f.configureMotor
  let present ← f.presentPosition f.numReadRetries
  f.command (.writeGoal present)
  pure (poseArray present)

/-- `close`, which raises nothing -/
def close : Effect (Raised F) (Rig σ) Unit := do
  if ← Rig.isConnected then do
    Rig.setConnected false
    try Rig.onMotors (f.command (.disableTorque 5)) catch _ => pure ()
    try Rig.onMotors (f.command (.disconnect false)) catch _ => pure ()
  else pure ()

/-- The `try` block of `prepare_disabled`. -/
def prepareConnected : Effect (Raised F) (Rig σ) (NdArray F) := do
  Rig.onMotors (f.command .setWriteTimeout)
  if ← Rig.onMotors f.isCalibrated then Rig.onMotors f.prepareConnectedRobotDisabled
  else throw (.backend (py ("calibration file doesn't match motor registers; " ++
    "remote automatic calibration is intentionally disabled")))

def prepareDisabled : Effect (Raised F) (Rig σ) (NdArray F) := do
  if ← Rig.isConnected then throw (.backend (py "robot backend is already connected"))
  else if ← Rig.onMotors f.create then do
    Rig.onMotors (f.command .connect)
    Rig.setConnected true
    try f.prepareConnected
    catch e =>
      f.close
      throw e
  else throw (.backend (py "missing calibration file: " ++ f.calibrationFpath ++
    py "; remote automatic calibration is intentionally disabled"))

/-- `_require_robot`, and then a call of the robot. -/
def withRobot (x : Effect (Raised F) σ α) : Effect (Raised F) (Rig σ) α := do
  if ← Rig.isConnected then Rig.onMotors x
  else throw (.backend (py "robot isn't connected"))

def enableAtCurrent (measuredQ : Pose F) : Effect (Raised F) (Rig σ) Unit :=
  withRobot do
    f.command (.writeGoal measuredQ)
    f.command .enableTorque

def readQ : Effect (Raised F) (Rig σ) (Pose F) := withRobot (f.presentPosition f.numReadRetries)

def sendQ (q : Pose F) : Effect (Raised F) (Rig σ) Unit := withRobot (f.command (.writeGoal q))

/-! ## Answers to a run -/

/-- What the thread of `_execute` gets of a call. -/
def answer (x : Effect (Raised F) (Rig σ) α) (reply : α → Act F) (s : Rig σ) : Act F × Rig σ :=
  (match (x s).1 with
    | .ok a => reply a
    | .error e => .raised e, (x s).2)

/-- A call of the backend with its answer; `backend_factory` makes a new one. -/
def act : BackendCall F → Rig σ → Act F × Rig σ
  | .created => answer (Rig.setConnected false) fun _ => .returned
  | .prepareDisabled => answer f.prepareDisabled .array
  | .enableAtCurrent measured => answer (f.enableAtCurrent measured) fun _ => .returned
  | .readQ => answer f.readQ .pose
  | .sendQ _ q => answer (f.sendQ q) fun _ => .returned
  | .close => answer f.close fun _ => .returned

end Follower

/-! ## What the backend relies on -/

/-- What is seen of the motors. -/
structure Servos (F σ : Type) where
  torque : σ → Joint → Bool
  goal : σ → Joint → Option F

namespace Servos

variable (v : Servos F σ)

/-- No motor has torque. -/
def Limp (m : σ) : Prop := ∀ j, v.torque m j = false

/-- The motors with torque had it in `m`, and have the same goals. -/
def Held (m m' : σ) : Prop := ∀ j, v.torque m' j = true → v.torque m j = true ∧ v.goal m' j = v.goal m j

/-- The goals are those of a pose. -/
def Aims (m : σ) (q : Pose F) : Prop := ∀ j, v.goal m j = some (q j)

/-- A call that gives no motor torque and leaves every goal. -/
def Quiet (x : Effect (Raised F) σ α) : Prop :=
  ∀ m j, (v.torque (x m).2 j = true → v.torque m j = true) ∧ v.goal (x m).2 j = v.goal m j

end Servos

/-- The documented effects on torque and goals, also of a call that raises. -/
structure Follower.Lawful (f : Follower F σ) (v : Servos F σ) : Prop where
  create : v.Quiet f.create
  isCalibrated : v.Quiet f.isCalibrated
  presentPosition : ∀ n, v.Quiet (f.presentPosition n)
  connect : v.Quiet (f.command .connect)
  setWriteTimeout : v.Quiet (f.command .setWriteTimeout)
  disableTorque : ∀ n, v.Quiet (f.command (.disableTorque n))
  disabled : ∀ n m, (f.command (.disableTorque n) m).1 = .ok () →
    v.Limp (f.command (.disableTorque n) m).2
  configureMotors : v.Quiet (f.command .configureMotors)
  write : ∀ register motor value, v.Quiet (f.command (.write register motor value))
  /-- a write that fails may have reached some motors -/
  writeGoal : ∀ q m j, (v.torque (f.command (.writeGoal q) m).2 j = true → v.torque m j = true) ∧
    (v.goal (f.command (.writeGoal q) m).2 j = v.goal m j ∨
      v.goal (f.command (.writeGoal q) m).2 j = some (q j))
  written : ∀ q m, (f.command (.writeGoal q) m).1 = .ok () →
    v.Aims (f.command (.writeGoal q) m).2 q
  enableTorque : ∀ m j, v.goal (f.command .enableTorque m).2 j = v.goal m j
  enabled : ∀ m, (f.command .enableTorque m).1 = .ok () →
    ∀ j, v.torque (f.command .enableTorque m).2 j = true
  disconnect : v.Quiet (f.command (.disconnect false))

/-! ## What the calls do -/

namespace Servos

variable {v : Servos F σ} {m m₀ m' : σ} {x : Effect (Raised F) σ α}

theorem Held.refl (m : σ) : v.Held m m := fun _ h => ⟨h, rfl⟩

theorem Held.trans (h : v.Held m₀ m) (h' : v.Held m m') : v.Held m₀ m' := fun j hj =>
  ⟨(h j (h' j hj).1).1, (h' j hj).2.trans (h j (h' j hj).1).2⟩

theorem Limp.held (h : v.Limp m) : v.Held m₀ m := fun j hj => by rw [h j] at hj; cases hj

theorem Limp.mono (h : v.Limp m) (hm : ∀ j, v.torque m' j = true → v.torque m j = true) :
    v.Limp m' := fun j =>
  Bool.eq_false_iff.2 fun hj => Bool.false_ne_true ((h j).symm.trans (hm j hj))

theorem Held.limp (h : v.Held m₀ m) (hlimp : v.Limp m₀) : v.Limp m := hlimp.mono fun j hj => (h j hj).1

theorem Quiet.held (h : v.Quiet x) (m : σ) : v.Held m (x m).2 := fun j hj => ⟨(h m j).1 hj, (h m j).2⟩

theorem Quiet.triple_held (h : v.Quiet x) :
    Triple (v.Held m₀) x (fun _ => v.Held m₀) (v.Held m₀) :=
  triple_of_ends fun m hm => hm.trans (h.held m)

theorem Quiet.triple_limp (h : v.Quiet x) : Triple v.Limp x (fun _ => v.Limp) v.Limp :=
  triple_of_ends fun m hm => (h.held m).limp hm

end Servos

namespace Follower

variable {f : Follower F σ} {v : Servos F σ} {m₀ : σ}

theorem Lawful.configureMotor (h : f.Lawful v) (motor : Joint) :
    Triple v.Limp (f.configureMotor motor) (fun _ => v.Limp) v.Limp := by
  have hwrite : ∀ register value, Triple v.Limp (f.command (.write register motor value))
      (fun _ => v.Limp) v.Limp := fun register value => (h.write register motor value).triple_limp
  unfold Follower.configureMotor
  refine (hwrite _ _).bind fun _ => (hwrite _ _).bind fun _ => (hwrite _ _).bind fun _ =>
    (hwrite _ _).bind fun _ => ?_
  split_ifs
  · exact (hwrite _ _).bind fun _ => (hwrite _ _).bind fun _ => hwrite _ _
  · exact triple_pure fun _ hs => hs

/-- The motors are limp from the first command on, and what is returned are their goals. -/
theorem Lawful.prepareConnectedRobotDisabled (h : f.Lawful v) :
    Triple (v.Held m₀) f.prepareConnectedRobotDisabled
      (fun a m => v.Limp m ∧ ∃ q, a = poseArray q ∧ v.Aims m q) (v.Held m₀) := by
  have hdisable : Triple (v.Held m₀) (f.command (.disableTorque 0)) (fun _ => v.Limp)
      (v.Held m₀) := by
    intro m hm
    split
    · rename_i u hu
      exact h.disabled 0 m hu
    · exact hm.trans ((h.disableTorque 0).held m)
  have hwrite : ∀ q, Triple v.Limp (f.command (.writeGoal q))
      (fun _ m => v.Limp m ∧ v.Aims m q) v.Limp := by
    intro q m hm
    have hlimp : v.Limp (f.command (.writeGoal q) m).2 := hm.mono fun j => (h.writeGoal q m j).1
    split
    · rename_i u hu
      exact ⟨hlimp, h.written q m hu⟩
    · exact hlimp
  have hlimp : ∀ m, v.Limp m → v.Held m₀ m := fun _ hm => hm.held
  unfold Follower.prepareConnectedRobotDisabled
  refine hdisable.bind fun _ => ?_
  refine Triple.mono ?_ (fun _ hm => hm) (fun _ _ hm => hm) hlimp
  refine h.configureMotors.triple_limp.bind fun _ =>
    (triple_forM fun motor _ => h.configureMotor motor).bind fun _ =>
    (h.presentPosition _).triple_limp.bind fun q => (hwrite q).bind fun _ => ?_
  exact triple_pure fun _ hm => ⟨hm.1, q, rfl, hm.2⟩

/-! ### The calls of a run -/

theorem triple_onMotors {P R : σ → Prop} {x : Effect (Raised F) σ α} {Q : α → σ → Prop}
    (h : Triple P x Q R) (connected : Bool) :
    Triple (fun s : Rig σ => s.connected = connected ∧ P s.motors) (Rig.onMotors x)
      (fun a s => s.connected = connected ∧ Q a s.motors)
      (fun s => s.connected = connected ∧ R s.motors) := by
  rintro s ⟨hc, hs⟩
  have := h s.motors hs
  rcases hx : (x s.motors).1 with e | a <;> rw [hx] at this <;>
    simp only [Rig.onMotors, hx] <;> exact ⟨hc, this⟩

variable {s : Rig σ}

theorem close_eq (f : Follower F σ) (s : Rig σ) : f.close s = (.ok (), ⟨false, if s.connected then
    (f.command (.disconnect false) (f.command (.disableTorque 5) s.motors).2).2 else s.motors⟩) := by
  obtain ⟨connected, m⟩ := s
  cases connected
  · rfl
  · have htorque := tryCatch_pure (Rig.onMotors (f.command (.disableTorque 5))) ⟨false, m⟩
    have hport := tryCatch_pure (Rig.onMotors (f.command (.disconnect false)))
      ⟨false, (f.command (.disableTorque 5) m).2⟩
    exact (bind_of_ok htorque).trans hport

theorem Lawful.close_held (h : f.Lawful v) (s : Rig σ) : v.Held s.motors (f.close s).2.motors := by
  rw [close_eq]
  cases s.connected
  · exact .refl _
  · exact ((h.disableTorque 5).held _).trans (h.disconnect.held _)

theorem Lawful.close_limp (h : f.Lawful v) (hc : s.connected = true)
    (hok : (f.command (.disableTorque 5) s.motors).1 = .ok ()) : v.Limp (f.close s).2.motors := by
  rw [close_eq, hc]
  exact (h.disconnect.held _).limp (h.disabled 5 s.motors hok)

/-- The body of `prepare_disabled` behind its first check. -/
theorem Lawful.prepareConnected (h : f.Lawful v) :
    Triple (fun s => s.connected = true ∧ v.Held m₀ s.motors) (f.prepareConnected)
      (fun a s => s.connected = true ∧ v.Limp s.motors ∧ ∃ q, a = poseArray q ∧ v.Aims s.motors q)
      (fun s => s.connected = true ∧ v.Held m₀ s.motors) := by
  unfold Follower.prepareConnected
  refine (triple_onMotors h.setWriteTimeout.triple_held true).bind fun _ =>
    (triple_onMotors h.isCalibrated.triple_held true).bind fun calibrated => ?_
  cases calibrated
  · exact triple_throw fun _ hs => hs
  · exact triple_onMotors h.prepareConnectedRobotDisabled true

theorem Lawful.prepareDisabled (h : f.Lawful v) :
    Triple (fun s => v.Held m₀ s.motors) f.prepareDisabled
      (fun a s => s.connected = true ∧ v.Limp s.motors ∧ ∃ q, a = poseArray q ∧ v.Aims s.motors q)
      (fun s => v.Held m₀ s.motors) := by
  have hmotors : ∀ {β} {x : Effect (Raised F) σ β}, v.Quiet x →
      Triple (fun s : Rig σ => v.Held m₀ s.motors) (Rig.onMotors x)
        (fun _ s => v.Held m₀ s.motors) (fun s => v.Held m₀ s.motors) :=
    fun hx => triple_of_ends fun s hs => hs.trans (hx.held s.motors)
  have hclose : Triple (fun s : Rig σ => s.connected = true ∧ v.Held m₀ s.motors) f.close
      (fun _ s => v.Held m₀ s.motors) (fun s => v.Held m₀ s.motors) :=
    triple_of_ends fun s hs => hs.2.trans (h.close_held s)
  have hset : Triple (fun s : Rig σ => v.Held m₀ s.motors)
      (Rig.setConnected true : Effect (Raised F) (Rig σ) Unit)
      (fun _ s => s.connected = true ∧ v.Held m₀ s.motors) (fun s => v.Held m₀ s.motors) :=
    fun s hs => ⟨rfl, hs⟩
  have hconnected : Triple (fun s : Rig σ => v.Held m₀ s.motors)
      (Rig.isConnected : Effect (Raised F) (Rig σ) Bool)
      (fun _ s => v.Held m₀ s.motors) (fun s => v.Held m₀ s.motors) := fun s hs => hs
  unfold Follower.prepareDisabled
  refine hconnected.bind fun connected => ?_
  cases connected
  · refine (hmotors h.create).bind fun calibration => ?_
    cases calibration
    · exact triple_throw fun _ hs => hs
    · exact (hmotors h.connect).bind fun _ => hset.bind fun _ =>
        h.prepareConnected.tryCatch fun _ => hclose.bind fun _ => triple_throw fun _ hs => hs
  · exact triple_throw fun _ hs => hs

theorem Lawful.prepareDisabled_held (h : f.Lawful v) (s : Rig σ) :
    v.Held s.motors (f.prepareDisabled s).2.motors :=
  Triple.ends (P := fun s' => v.Held s.motors s'.motors) (R := fun s' => v.Held s.motors s'.motors)
    (h.prepareDisabled.mono (fun _ hs => hs) (fun _ _ hs => hs.2.1.held) fun _ hs => hs)
    (Servos.Held.refl s.motors)

theorem withRobot_eq (x : Effect (Raised F) σ α) (s : Rig σ) : withRobot x s =
    if s.connected then Rig.onMotors x s
    else (.error (.backend (py "robot isn't connected")), s) := by
  obtain ⟨connected, m⟩ := s
  cases connected <;> rfl

/-- What a call of the robot leaves of the motors. -/
theorem snd_withRobot (x : Effect (Raised F) σ α) (s : Rig σ) : (withRobot x s).2 =
    if s.connected then { s with motors := (x s.motors).2 } else s := by
  rw [withRobot_eq]
  obtain ⟨connected, m⟩ := s
  cases connected <;> rfl

end Follower

/-- The goal a call has for the motors. -/
def BackendCall.goal? : BackendCall F → Option (Pose F)
  | .enableAtCurrent q | .sendQ _ q => some q
  | _ => none

namespace Follower

variable {f : Follower F σ} {v : Servos F σ} {s : Rig σ} {q : Pose F} {j : Joint}

theorem Lawful.writeGoal_energized (h : f.Lawful v) {m : σ}
    (hj : v.torque (f.command (.writeGoal q) m).2 j = true) :
    v.torque m j = true ∧ v.goal (f.command (.writeGoal q) m).2 j = v.goal m j ∨
      v.goal (f.command (.writeGoal q) m).2 j = some (q j) := by
  obtain ⟨htorque, hgoal | hgoal⟩ := h.writeGoal q m j
  · exact .inl ⟨htorque hj, hgoal⟩
  · exact .inr hgoal

/-- A motor that has torque behind a call of the robot had it before, with the same goal, or has a goal
as the call leaves them. -/
theorem withRobot_energized {x : Effect (Raised F) σ α} {P : Option F → Prop}
    (hx : ∀ m, v.torque (x m).2 j = true →
      v.torque m j = true ∧ v.goal (x m).2 j = v.goal m j ∨ P (v.goal (x m).2 j))
    (hj : v.torque (withRobot x s).2.motors j = true) :
    v.torque s.motors j = true ∧ v.goal (withRobot x s).2.motors j = v.goal s.motors j ∨
      P (v.goal (withRobot x s).2.motors j) := by
  rw [snd_withRobot] at hj ⊢
  cases hc : s.connected <;> simp only [hc, if_true, Bool.false_eq_true, if_false] at hj ⊢
  · exact .inl ⟨hj, trivial⟩
  · exact hx s.motors hj

/-- Torque is switched on only behind a write of all goals. -/
theorem Lawful.enable_energized (h : f.Lawful v)
    (hj : v.torque (f.enableAtCurrent q s).2.motors j = true) :
    v.torque s.motors j = true ∧ v.goal (f.enableAtCurrent q s).2.motors j = v.goal s.motors j ∨
      v.goal (f.enableAtCurrent q s).2.motors j = some (q j) := by
  refine withRobot_energized (P := fun goal => goal = some (q j)) (fun m hj => ?_) hj
  have hwrite := h.written q m
  have hpartial := h.writeGoal_energized (q := q) (m := m) (j := j)
  rcases hw : f.command (.writeGoal q) m with ⟨e | u, m'⟩ <;> rw [hw] at hwrite hpartial
  · rw [bind_of_error hw] at hj ⊢
    exact hpartial hj
  · rw [bind_of_ok hw]
    exact .inr ((h.enableTorque m' j).trans (hwrite rfl j))

/-- A motor that has torque behind a call had it before, and the same goal, or has the goal of the
call. -/
theorem Lawful.act_energized (h : f.Lawful v) {call : BackendCall F}
    (hj : v.torque (f.act call s).2.motors j = true) :
    v.torque s.motors j = true ∧ v.goal (f.act call s).2.motors j = v.goal s.motors j ∨
      ∃ q, call.goal? = some q ∧ v.goal (f.act call s).2.motors j = some (q j) := by
  cases call with
  | created => exact .inl ⟨hj, rfl⟩
  | prepareDisabled => exact .inl (h.prepareDisabled_held s j hj)
  | enableAtCurrent q => exact (h.enable_energized hj).imp_right fun hg => ⟨q, rfl, hg⟩
  | readQ =>
    exact withRobot_energized
      (P := fun goal => ∃ q, BackendCall.readQ.goal? = some q ∧ goal = some (q j))
      (fun m hm => .inl ((h.presentPosition _).held m j hm)) hj
  | sendQ p q =>
    exact withRobot_energized
      (P := fun goal => ∃ q', (BackendCall.sendQ p q).goal? = some q' ∧ goal = some (q' j))
      (fun m hm => (h.writeGoal_energized hm).imp_right fun hg => ⟨q, rfl, hg⟩) hj
  | close => exact .inl (h.close_held s j hj)

/-- No other call switches torque on. -/
theorem Lawful.act_limp (h : f.Lawful v) {call : BackendCall F} (hcall : call.isEnable = false)
    (hlimp : v.Limp s.motors) : v.Limp (f.act call s).2.motors := by
  have hrobot : ∀ {β} {x : Effect (Raised F) σ β},
      (∀ m, v.Limp m → v.Limp (x m).2) → v.Limp (withRobot x s).2.motors := by
    intro β x hx
    rw [snd_withRobot]
    cases s.connected
    · exact hlimp
    · exact hx s.motors hlimp
  cases call with
  | created => exact hlimp
  | prepareDisabled => exact (h.prepareDisabled_held s).limp hlimp
  | enableAtCurrent q => cases hcall
  | readQ => exact hrobot fun m hm => ((h.presentPosition _).held m).limp hm
  | sendQ p q => exact hrobot fun m hm => hm.mono fun j => (h.writeGoal q m j).1
  | close => exact (h.close_held s).limp hlimp

theorem act_connected {call : BackendCall F} (hcall : call.isEnable = true ∨ call = .readQ ∨
    ∃ p q, call = .sendQ p q) (s : Rig σ) : (f.act call s).2.connected = s.connected := by
  have hrobot : ∀ {β} (x : Effect (Raised F) σ β), (withRobot x s).2.connected = s.connected := by
    intro β x
    rw [snd_withRobot]
    obtain ⟨connected, m⟩ := s
    cases connected <;> rfl
  obtain h | rfl | ⟨p, q, rfl⟩ := hcall
  · cases call <;> first | exact hrobot _ | cases h
  · exact hrobot _
  · exact hrobot _

theorem act_close (s : Rig σ) : (f.act .close s).2.connected = false ∧
    (s.connected = false → (f.act .close s).2.motors = s.motors) := by
  have hs : (f.act .close s).2 = (f.close s).2 := rfl
  rw [hs, close_eq]
  refine ⟨rfl, fun hc => ?_⟩
  rw [hc]
  rfl

/-- `prepare_disabled` returns the pose that is the goal of all motors, none of them with torque. -/
theorem Lawful.act_prepared (h : f.Lawful v) {a : NdArray F}
    (ha : (f.act .prepareDisabled s).1 = .array a) :
    (f.act .prepareDisabled s).2.connected = true ∧ v.Limp (f.act .prepareDisabled s).2.motors ∧
      ∃ q, a = poseArray q ∧ v.Aims (f.act .prepareDisabled s).2.motors q := by
  have hs := h.prepareDisabled s (Servos.Held.refl s.motors)
  unfold act answer at ha ⊢
  rcases hr : (f.prepareDisabled s).1 with e | a' <;> rw [hr] at hs <;>
    simp only [hr] at ha <;> cases ha
  exact hs

/-- `enable_at_current` returns with every motor under torque at the goal it was given. -/
theorem Lawful.act_enabled (h : f.Lawful v) (ha : (f.act (.enableAtCurrent q) s).1 = .returned) :
    (f.act (.enableAtCurrent q) s).2.connected = true ∧
      v.Aims (f.act (.enableAtCurrent q) s).2.motors q ∧
      ∀ j, v.torque (f.act (.enableAtCurrent q) s).2.motors j = true := by
  have hs : f.act (.enableAtCurrent q) s =
      answer (f.enableAtCurrent q) (fun _ => .returned) s := rfl
  have hrobot : f.enableAtCurrent q s = withRobot (do
      f.command (.writeGoal q)
      f.command .enableTorque) s := rfl
  obtain ⟨connected, m⟩ := s
  rw [hs] at ha ⊢
  unfold answer at ha ⊢
  rw [hrobot, withRobot_eq] at ha ⊢
  cases connected
  · cases ha
  · rw [if_pos rfl] at ha ⊢
    unfold Rig.onMotors at ha ⊢
    rcases hw : f.command (.writeGoal q) m with ⟨e | u, m₁⟩
    · rw [bind_of_error hw] at ha
      cases ha
    · rw [bind_of_ok hw] at ha ⊢
      have hwritten := h.written q m (by rw [hw])
      rw [hw] at hwritten
      refine ⟨rfl, fun j => (h.enableTorque m₁ j).trans (hwritten j), h.enabled m₁ ?_⟩
      rcases he : (f.command .enableTorque m₁).1 with e | u
      · simp only [he] at ha
        cases ha
      · rfl

end Follower

end RemoteRobot.Stream
