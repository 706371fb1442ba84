import Mathlib.Algebra.BigOperators.Group.List.Basic
import RemoteRobot.Lib.Table
import RemoteRobot.Lib.Transition
import RemoteRobot.Stream.Protocol

/-!
# One run of the trajectory server

`ProgramRun` of `robot_server.py`.  The connection handlers call `append_chunk`, `start`,
`heartbeat`, `request_stop` and `connection_lost`, each one step, since each holds the run's lock.
The thread of `_execute` is a program counter with the local variables in scope there; it takes a
step for each section under the lock, each call of the backend, each event it emits and each check
of `stop_event`, so the handlers' calls interleave everywhere between.

The two histories, the calls made to the backend and the events given to the sink, are what an
observer of the run sees.  `clock` is the latest reading of `time.monotonic()`.
-/

namespace RemoteRobot.Stream

open Py Except

variable {F : Type}

/-! ## Records -/

/-- `RUN_MODES` -/
inductive RunMode where
  | sealed | streaming
  deriving DecidableEq, Repr

inductive DisconnectPolicy where
  | stopAfterTimeout | completeIfSealed
  deriving DecidableEq, Repr

inductive RunState where
  | buffering | arming | running | completed | stopped | faulted
  deriving DecidableEq, Repr

/-- `TERMINAL_STATES` -/
def RunState.terminal : RunState → Bool
  | .completed | .stopped | .faulted => true
  | _ => false

/-- An array of the motor bus, of any shape. -/
structure NdArray (F : Type) where
  shape : List ℕ
  data : List F
  size : data.length = shape.prod

/-- The arguments of `append_chunk`. -/
structure Chunk (F : Type) where
  chunkSeq : ℤ
  points : List (TrajectoryPoint F)
  final : Bool
  digest : Str

/-- The `chunk_accepted` message. -/
structure Receipt where
  runId : Str
  chunkSeq : ℤ
  acceptedUntilUs : ℤ
  executionCursorUs : ℤ
  queuedAheadUs : ℤ
  availableHorizonUs : ℤ
  final : Bool
  deriving DecidableEq

/-- `ProgramRun.snapshot` -/
structure Snapshot (F : Type) where
  runId : Str
  state : RunState
  message : Str
  coordinateMode : CoordinateMode
  runMode : RunMode
  finalReceived : Bool
  expectedChunkSeq : ℤ
  executionCursorUs : ℤ
  acceptedUntilUs : ℤ
  queuedAheadUs : ℤ
  availableHorizonUs : ℤ
  measuredQDeg : Option (Pose F)
  targetQDeg : Option (Pose F)

/-- `outcome, code` -/
structure Outcome where
  state : RunState
  code : Option Code
  deriving DecidableEq

/-- Which of the three calls of `send_q` it is; the first is that of a tick at this cursor. -/
inductive Purpose where
  | interpolated (cursorUs : ℤ)
  | last
  | hold
  deriving DecidableEq

/-- A call of the backend, made whether it then returns or raises; `created` is a return of
`backend_factory`. -/
inductive BackendCall (F : Type) where
  | created
  | prepareDisabled
  | enableAtCurrent (measured : Pose F)
  | readQ
  | sendQ (purpose : Purpose) (q : Pose F)
  | close

/-- The events of `_emit`; a fault copies its other fields from the exception. -/
inductive Event (F : Type) where
  | runState (snapshot : Snapshot F)
  | telemetry (snapshot : Snapshot F) (trackingErrorDeg gripperErrorPct : F) (lowWater : Bool)
  | fault (code : Code) (exc : Raised F)
  | runFinished (snapshot : Snapshot F) (outcome : Outcome)

/-- The local variables of the control loop; no telemetry yet is `last_telemetry = -inf`. -/
structure Loop (F : Type) where
  started : F
  periodS : F
  telemetryPeriodS : F
  nextTick : F
  lastTelemetry : Option F := none
  segmentIndex : ℕ := 0
  trackingViolations : ℕ := 0

/-- The local variables of a tick that has its target. -/
structure Tick (F : Type) extends Loop F where
  now : F
  cursorUs : ℤ
  target : Pose F

/-- Where the thread of `_execute` stands. -/
inductive Pc (F : Type) where
  /-- `start` was not called -/
  | unstarted
  /-- before `backend_factory()` -/
  | factory
  /-- before `prepare_disabled()` -/
  | prepare
  /-- before the section that captures the origin -/
  | capture (measured : NdArray F)
  /-- before the check of `stop_event` that precedes torque -/
  | stopCheck (measured : Pose F)
  /-- before `enable_at_current(measured)` -/
  | enable (measured : Pose F)
  | setRunning
  | announce
  /-- before `started = time.monotonic()` -/
  | begin
  /-- the head of the loop -/
  | tick (loop : Loop F)
  | heartbeatCheck (loop : Loop F) (now : F)
  /-- before the section that copies the points -/
  | locate (loop : Loop F) (now : F)
  /-- before `read_q()` -/
  | read (tick : Tick F)
  /-- before `send_q(target)` -/
  | send (tick : Tick F) (measured : Pose F)
  | publish (tick : Tick F) (measured : Pose F)
  | telemetry (tick : Tick F) (measured : Pose F) (acceptedUntil : ℤ)
  /-- before the clock reading of the delay -/
  | pace (loop : Loop F)
  /-- before `send_q` of the resolved last point -/
  | sendLast (q : Pose F) (tUs : ℤ)
  | publishLast (tUs : ℤ)
  /-- before the `_emit` of an exception handler -/
  | fault (exc : Raised F)
  /-- the beginning of `_hold_then_close` -/
  | hold (outcome : Outcome)
  | holdSend (outcome : Outcome) (measured : Pose F)
  | close (outcome : Outcome)
  /-- before the section that sets the final state -/
  | finish (outcome : Outcome)
  /-- before `terminal_event.set()` -/
  | signal (outcome : Outcome)
  /-- before the `_emit` of `run_finished` -/
  | report (outcome : Outcome)
  | done

/-- The arguments of the constructor. -/
structure RunConfig (F : Type) where
  runId : Str
  header : ProgramHeader
  runMode : RunMode
  expectedDigest : Str
  disconnectPolicy : DisconnectPolicy
  policy : SafetyPolicy F
  controlHz : F
  telemetryHz : F
  heartbeatTimeoutS : F
  holdAfterRunS : F

structure ProgramRun (F : Type) extends RunConfig F where
  points : List (TrajectoryPoint F) := []
  chunkReceipts : Table ℤ (Str × Receipt) := ∅
  expectedChunkSeq : ℤ := 0
  finalReceived : Bool := false
  state : RunState := .buffering
  message : Str := py "waiting for validated trajectory chunks"
  cursorUs : ℤ := 0
  lastHeartbeat : F
  originQ : Option (Pose F) := none
  measuredQ : Option (Pose F) := none
  targetQ : Option (Pose F) := none
  stopEvent : Bool := false
  /-- `self.backend is not None` -/
  backend : Bool := false
  torqueEnabled : Bool := false
  terminalEvent : Bool := false
  pc : Pc F := .unstarted
  calls : List (BackendCall F) := []
  events : List (Event F) := []
  clock : F

/-- `int(x)` of a float, which raises on infinities and NaN -/
class FloatTrunc (F : Type) where
  trunc : F → Except Exc ℤ

instance : FloatTrunc ℚ where
  trunc q := .ok (if 0 ≤ q then ⌊q⌋ else ⌈q⌉)

/-- `max(0, int((now - started) * 1_000_000))` -/
def cursorAt [PyFloat F] [FloatTrunc F] (started now : F) : Except Exc ℤ := do
  let us ← FloatTrunc.trunc (PyFloat.mul (PyFloat.sub now started) (PyFloat.lit 1000000))
  .ok (max 0 us)

/-- What the proofs use of float comparison and of the cursor of a later reading. -/
class LawfulClock (F : Type) [PyFloat F] [FloatTrunc F] : Prop where
  le_trans : ∀ a b c : F, PyFloat.le a b = true → PyFloat.le b c = true → PyFloat.le a c = true
  cursor_mono : ∀ (started a b : F) (m n : ℤ), PyFloat.le a b = true →
    cursorAt started a = .ok m → cursorAt started b = .ok n → m ≤ n

theorem trunc_mono {p q : ℚ} (h : p ≤ q) :
    (if 0 ≤ p then ⌊p⌋ else ⌈p⌉) ≤ if 0 ≤ q then ⌊q⌋ else ⌈q⌉ := by
  split_ifs with hp hq hq
  · exact Int.floor_le_floor h
  · exact absurd (hp.trans h) hq
  · exact (Int.ceil_le.2 (le_of_lt (not_le.1 hp))).trans (Int.floor_nonneg.2 hq)
  · exact Int.ceil_le_ceil h

instance : LawfulClock ℚ where
  le_trans a b c hab hbc := decide_eq_true ((of_decide_eq_true hab).trans (of_decide_eq_true hbc))
  cursor_mono started a b m n hab hm hn := by
    have hle : a ≤ b := of_decide_eq_true hab
    cases hm
    cases hn
    refine max_le_max le_rfl (trunc_mono ?_)
    exact mul_le_mul_of_nonneg_right (sub_le_sub_right hle started)
      (show (0 : ℚ) ≤ 1000000 by norm_num)

namespace ProgramRun

/-- `ProgramRun(...)` at the clock reading `now` -/
def init (cfg : RunConfig F) (now : F) : ProgramRun F :=
  { cfg with lastHeartbeat := now, clock := now }

variable (r : ProgramRun F)

/-! ## Snapshots -/

/-- `self.points[-1].t_us if self.points else 0` -/
def acceptedUntilUs : ℤ := match r.points.getLast? with
  | some point => point.tUs
  | none => 0

/-- `available_horizon_us_locked` -/
def availableHorizonUs : ℤ :=
  max 0 (r.policy.maxHorizonUs - max 0 (r.acceptedUntilUs - r.cursorUs))

def snapshot : Snapshot F where
  runId := r.runId
  state := r.state
  message := r.message
  coordinateMode := r.header.coordinateMode
  runMode := r.runMode
  finalReceived := r.finalReceived
  expectedChunkSeq := r.expectedChunkSeq
  executionCursorUs := r.cursorUs
  acceptedUntilUs := r.acceptedUntilUs
  queuedAheadUs := max 0 (r.acceptedUntilUs - r.cursorUs)
  availableHorizonUs := r.availableHorizonUs
  measuredQDeg := r.measuredQ
  targetQDeg := r.targetQ

/-! ## Chunks -/

section Chunks

variable [PyFloat F]

/-- `_validate_resolved_position` -/
def validateResolvedPosition (point : TrajectoryPoint F) : Except (Raised F) Unit :=
  match r.header.coordinateMode, r.originQ with
  | .relativeDeg, some origin => joints.forM fun j =>
    raiseWhen (within (r.policy.jointMinDeg j) (r.policy.jointMaxDeg j)
        (PyFloat.add (origin j) (point.qDeg j)) = false)
      (protocolError .limitViolation "resolved % target is outside server limits"
        [.str (py j.name)] [("joint", .str (py j.name)), ("t_us", .int point.tUs)])
  | _, _ => .ok ()

/-- The first point of a program. -/
def validateFirst (point : TrajectoryPoint F) : Except (Raised F) Unit := do
  raiseWhen (point.tUs ≠ 0)
    (protocolError .invalidTime "the first point must have t_us=0" [] [])
  raiseWhen (r.header.coordinateMode = .relativeDeg ∧
      joints.any (fun j => PyFloat.lt (PyFloat.lit 1e-9) (PyFloat.abs (point.qDeg j))) = true)
    (protocolError .startStateMismatch "a relative trajectory must start at all-zero offsets" [] [])

/-- The loop over the points of a chunk. -/
def validatePoints : Option (TrajectoryPoint F) → List (TrajectoryPoint F) →
    Except (Raised F) Unit
  | _, [] => .ok ()
  | previous, point :: points => do
    match previous with
    | none => r.validateFirst point
    | some previous => r.policy.validateSegment previous point
    r.policy.validatePosition point r.header.coordinateMode
    r.validateResolvedPosition point
    validatePoints (some point) points

/-- The checks of a new chunk, before anything is changed. -/
def validateChunk (c : Chunk F) : Except (Raised F) Unit := do
  raiseWhen (c.chunkSeq ≠ r.expectedChunkSeq)
    (protocolError .outOfOrder "expected chunk %, received %"
      [.int r.expectedChunkSeq, .int c.chunkSeq] [("expected_chunk_seq", .int r.expectedChunkSeq)])
  raiseWhen (¬(r.state = .buffering ∨ r.state = .running) ∨ r.finalReceived = true)
    (protocolError .runStateConflict "cannot append while run is %" [] [])
  raiseWhen (c.points = [] ∨ r.policy.maxChunkPoints < c.points.length)
    (protocolError .chunkSize "a chunk must contain 1..% points" [.int r.policy.maxChunkPoints] [])
  r.validatePoints r.points.getLast? c.points
  let proposedCount := r.points.length + c.points.length
  let proposedEnd := (c.points.getLast?.map TrajectoryPoint.tUs).getD 0
  raiseWhen (r.policy.maxPoints < proposedCount ∨ r.policy.maxDurationUs < proposedEnd)
    (protocolError .resourceLimit "program exceeds the server resource limits" [] [])
  raiseWhen (c.final = true ∧ proposedCount < 2)
    (protocolError .schemaInvalid "a complete program needs at least two points" [] [])
  raiseWhen (r.runMode = .streaming ∧ r.policy.maxHorizonUs < proposedEnd - r.cursorUs)
    (.protocol
      { code := .queueFull
        message := ⟨"chunk is beyond the server's bounded lookahead horizon", []⟩
        retryable := true
        details := [("available_horizon_us", .int r.availableHorizonUs)] })

/-- `self.points.extend(points)` and the two assignments after it. -/
def extend (c : Chunk F) : ProgramRun F :=
  { r with
    points := r.points ++ c.points
    expectedChunkSeq := r.expectedChunkSeq + 1
    finalReceived := c.final }

/-- The rollback of `extend`. -/
def rollback (c : Chunk F) : ProgramRun F :=
  { r with
    points := r.points.take (r.points.length - c.points.length)
    expectedChunkSeq := r.expectedChunkSeq - 1
    finalReceived := false }

/-- The receipt of a chunk that is now the end of the points. -/
def receiptOf (c : Chunk F) : Receipt where
  runId := r.runId
  chunkSeq := c.chunkSeq
  acceptedUntilUs := r.acceptedUntilUs
  executionCursorUs := r.cursorUs
  queuedAheadUs := max 0 (r.acceptedUntilUs - r.cursorUs)
  availableHorizonUs := r.availableHorizonUs
  final := c.final

variable [FloatRepr F] [Sha256]

/-- `hmac.compare_digest(program_digest(self.header, self.points), self.expected_digest)` -/
def digestMatches : Except Exc Bool := do
  let digest ← programDigest r.header r.points
  compareDigest digest r.expectedDigest

/-- Storing the receipt. -/
def accept (actualDigest : Str) (c : Chunk F) : Except (Raised F) Receipt × ProgramRun F :=
  let receipt := r.receiptOf c
  (.ok receipt,
    { r with chunkReceipts := r.chunkReceipts.insert c.chunkSeq (actualDigest, receipt) })

/-- A new chunk, whose own digest was checked. -/
def appendNew (actualDigest : Str) (c : Chunk F) : Except (Raised F) Receipt × ProgramRun F :=
  match r.validateChunk c with
  | .error e => (.error e, r)
  | .ok () =>
    let r' := r.extend c
    if c.final = true then
      match r'.digestMatches with
      -- nothing is rolled back when the comparison itself raises
      | .error e => (.error (.builtin e), r')
      | .ok false => (.error (protocolError .hashMismatch "complete program digest doesn't match" []
          []), r'.rollback c)
      | .ok true => { r' with message := py "complete program validated" }.accept actualDigest c
    else r'.accept actualDigest c

/-- `append_chunk` -/
def appendChunk (c : Chunk F) : Except (Raised F) Receipt × ProgramRun F :=
  match chunkDigest c.chunkSeq c.points c.final with
  | .error e => (.error (.builtin e), r)
  | .ok actualDigest => match compareDigest c.digest actualDigest with
    | .error e => (.error (.builtin e), r)
    | .ok false => (.error (protocolError .hashMismatch "chunk digest doesn't match its payload" []
        []), r)
    | .ok true => match r.chunkReceipts.get c.chunkSeq with
      | some (oldDigest, receipt) => match compareDigest oldDigest actualDigest with
        | .error e => (.error (.builtin e), r)
        | .ok false => (.error (protocolError .duplicateConflict
            "chunk sequence was reused with new data" [] []), r)
        | .ok true => (.ok receipt, r)
      | none => r.appendNew actualDigest c

end Chunks

/-! ## The other calls of a connection -/

/-- `start`; its reply is the snapshot of the new state. -/
def start : Except (Raised F) (ProgramRun F) := do
  raiseWhen (r.state ≠ .buffering)
    (protocolError .runStateConflict "cannot start while run is %" [] [])
  raiseWhen (r.points.length < 2)
    (protocolError .notReady "at least two validated points are required" [] [])
  raiseWhen (r.runMode = .sealed ∧ r.finalReceived = false)
    (protocolError .notReady "sealed mode requires the entire program first" [] [])
  raiseWhen (r.runMode = .streaming ∧ r.finalReceived = false ∧
      r.acceptedUntilUs < r.policy.startBufferUs)
    (protocolError .notReady "streaming mode hasn't reached the start buffer watermark" []
      [("start_buffer_us", .int r.policy.startBufferUs)])
  .ok { r with
    state := .arming
    message := py "opening the local motor bus with torque disabled"
    pc := .factory }

/-- `heartbeat` at the clock reading `now` -/
def heartbeat (now : F) : ProgramRun F := { r with lastHeartbeat := now, clock := now }

/-- `request_stop` -/
def requestStop (reason : Str) : ProgramRun F :=
  { r with
    stopEvent := true
    message := if r.state.terminal then r.message else reason }

/-- `connection_lost` -/
def connectionLost : ProgramRun F := match r.state with
  | .buffering => { r with
      state := .stopped
      message := py "client disconnected before execution"
      terminalEvent := true }
  | .arming => { r with stopEvent := true }
  | _ => r

end ProgramRun

/-! ## The executor -/

/-- What the environment answers to a step of the executor. -/
inductive Act (F : Type) where
  /-- nothing: a step of the executor alone -/
  | internal
  /-- a reading of `time.monotonic()` -/
  | clock (now : F)
  /-- the call returned -/
  | returned
  /-- `prepare_disabled` returned this array -/
  | array (a : NdArray F)
  /-- `read_q` returned this pose -/
  | pose (q : Pose F)
  /-- the call raised -/
  | raised (exc : Raised F)

/-- The outcome the exception handlers compute. -/
def Raised.outcome : Raised F → Outcome
  | .protocol e => ⟨if e.code = .cancelled then .stopped else .faulted, some e.code⟩
  | _ => ⟨.faulted, some .hardwareFault⟩

def Code.name : Code → String
  | .hashMismatch => "HASH_MISMATCH"
  | .duplicateConflict => "DUPLICATE_CONFLICT"
  | .outOfOrder => "OUT_OF_ORDER"
  | .runStateConflict => "RUN_STATE_CONFLICT"
  | .chunkSize => "CHUNK_SIZE"
  | .invalidTime => "INVALID_TIME"
  | .startStateMismatch => "START_STATE_MISMATCH"
  | .limitViolation => "LIMIT_VIOLATION"
  | .velocityLimit => "VELOCITY_LIMIT"
  | .accelerationLimit => "ACCELERATION_LIMIT"
  | .resourceLimit => "RESOURCE_LIMIT"
  | .schemaInvalid => "SCHEMA_INVALID"
  | .queueFull => "QUEUE_FULL"
  | .notReady => "NOT_READY"
  | .hardwareFault => "HARDWARE_FAULT"
  | .cancelled => "CANCELLED"
  | .heartbeatLost => "HEARTBEAT_LOST"
  | .bufferUnderrun => "BUFFER_UNDERRUN"
  | .trackingError => "TRACKING_ERROR"
  | .controlCycleOverrun => "CONTROL_CYCLE_OVERRUN"
  | .versionUnsupported => "VERSION_UNSUPPORTED"
  | .modelMismatch => "MODEL_MISMATCH"
  | .jointSetMismatch => "JOINT_SET_MISMATCH"
  | .unknownMessage => "UNKNOWN_MESSAGE"

/-- `"trajectory completed" if outcome == "completed" else (code or outcome)` -/
def Outcome.message : Outcome → Str
  | ⟨.completed, _⟩ => py "trajectory completed"
  | ⟨_, some code⟩ => py code.name
  | ⟨.stopped, none⟩ => py "stopped"
  | ⟨_, none⟩ => py "faulted"

/-- The `while` loop that moves `segment_index`, over the points behind the current segment's
first. -/
def advance (cursorUs : ℤ) : List (TrajectoryPoint F) → ℕ → ℕ
  | [], segmentIndex => segmentIndex
  | point :: points, segmentIndex =>
    if point.tUs < cursorUs then advance cursorUs points (segmentIndex + 1) else segmentIndex

section Execute

variable [PyFloat F]

/-- `np.max` over the joint `j` and the joints `js` -/
def maxOver (q : Pose F) (j : Joint) (js : List Joint) : F :=
  js.foldl (fun x k => PyFloat.max x (q k)) (q j)

/-- `np.abs(a - b)` -/
def deviation (a b : Pose F) : Pose F := fun j => PyFloat.abs (PyFloat.sub (a j) (b j))

/-- `float(np.max(deviation[BODY_INDICES]))` -/
def trackingError (target measured : Pose F) : F :=
  maxOver (deviation target measured) .shoulderPan bodyJoints.tail

/-- The pose of an array of the right shape with finite values. -/
def startPose (a : NdArray F) : Option (Pose F) :=
  if a.shape = [6] ∧ a.data.all PyFloat.isFinite = true then
    match a.data with
    | [q₀, q₁, q₂, q₃, q₄, q₅] => some fun
      | .shoulderPan => q₀
      | .shoulderLift => q₁
      | .elbowFlex => q₂
      | .wristFlex => q₃
      | .wristRoll => q₄
      | .gripper => q₅
    | _ => none
  else none

namespace ProgramRun

variable (r : ProgramRun F)

/-- The call is made. -/
def call (c : BackendCall F) : ProgramRun F := { r with calls := r.calls ++ [c] }

/-- `_emit` -/
def emit (event : Event F) : ProgramRun F := { r with events := r.events ++ [event] }

/-- The exception leaves the `try` block. -/
def fail (exc : Raised F) : ProgramRun F := { r with pc := .fault exc }

/-- `_resolve` -/
def resolve (q : Pose F) : Except (Raised F) (Pose F) :=
  match r.header.coordinateMode, r.originQ with
  | .absoluteDeg, _ => .ok q
  | .relativeDeg, some origin => .ok fun j => PyFloat.add (origin j) (q j)
  | .relativeDeg, none =>
    .error (.backend (py "relative trajectory has no measured origin"))

/-- The checks between the capture of the origin and the check of `stop_event`. -/
def startChecks (measured : Pose F) : Except (Raised F) Unit :=
  match r.header.coordinateMode with
  | .absoluteDeg => match r.points with
    | [] => .error (.builtin .indexError)
    | first :: _ =>
      let startError := maxOver (deviation first.qDeg measured) .shoulderPan joints.tail
      raiseWhen (PyFloat.lt r.policy.startToleranceDeg startError = true)
        (protocolError .startStateMismatch "first point is % deg from the measured pose"
          [.float startError] [("limit", .float r.policy.startToleranceDeg)])
  | .relativeDeg => r.points.forM fun point =>
    { r with originQ := some measured }.validateResolvedPosition point

/-- The check of the start pose, the section that captures it and the start checks. -/
def capture (a : NdArray F) : ProgramRun F :=
  match startPose a with
  | none => r.fail (protocolError .hardwareFault "motor bus returned an invalid start pose" [] [])
  | some measured =>
    let r' := { r with originQ := some measured, measuredQ := some measured }
    match r'.startChecks measured with
    | .error e => r'.fail e
    | .ok () => { r' with pc := .stopCheck measured }

/-- From `started` to the head of the loop. -/
def beginLoop (now : F) : ProgramRun F :=
  let periods : Except Exc (F × F) := do
    let period ← PyFloat.div (PyFloat.lit 1) r.controlHz
    let telemetryPeriod ← PyFloat.div (PyFloat.lit 1) r.telemetryHz
    .ok (period, telemetryPeriod)
  match periods with
  | .error e => r.fail (.builtin e)
  | .ok (period, telemetryPeriod) => { r with
      pc := .tick
        { started := now, periodS := period, telemetryPeriodS := telemetryPeriod, nextTick := now } }

/-- The clock reading of a tick and the check of `stop_event`. -/
def beginTick (loop : Loop F) (now : F) : ProgramRun F :=
  if r.stopEvent = true then { r with pc := .hold ⟨.stopped, some .cancelled⟩ }
  else { r with pc := .heartbeatCheck loop now }

/-- `ignore_heartbeat` -/
def ignoreHeartbeat : Bool :=
  r.finalReceived && decide (r.disconnectPolicy = .completeIfSealed)

/-- `heartbeat_age > self.heartbeat_timeout_s` -/
def heartbeatExpired (now : F) : Bool :=
  PyFloat.lt r.heartbeatTimeoutS (PyFloat.sub now r.lastHeartbeat)

def checkHeartbeat (loop : Loop F) (now : F) : ProgramRun F :=
  if r.ignoreHeartbeat = false ∧ r.heartbeatExpired now = true then
    r.fail (protocolError .heartbeatLost "client heartbeat timed out" [] [])
  else { r with pc := .locate loop now }

/-- The exception of a buffer that ran dry. -/
def underrun (F : Type) : Raised F :=
  protocolError .bufferUnderrun "validated trajectory buffer ran dry" [] []

/-- No segment contains the cursor: the end of a complete program, or an underrun. -/
def atEnd (cursorUs : ℤ) : ProgramRun F :=
  if r.finalReceived = true then
    match r.points.getLast? with
    | none => r.fail (.builtin .indexError)
    | some last =>
      if last.tUs ≤ cursorUs then
        match r.resolve last.qDeg with
        | .error e => r.fail e
        | .ok q => { r with pc := .sendLast q last.tUs }
      else r.fail (underrun F)
  else r.fail (underrun F)

/-- The target between two points. -/
def interpolate (previous current : TrajectoryPoint F) (cursorUs : ℤ) :
    Except (Raised F) (Pose F) := do
  let logicalTarget ← liftBuiltin (interpolateQuintic previous current cursorUs)
  r.resolve logicalTarget

/-- From the section that copies the points to the target. -/
def locateAt (loop : Loop F) (now : F) (cursorUs : ℤ) : ProgramRun F :=
  let segmentIndex := advance cursorUs (r.points.drop (loop.segmentIndex + 1)) loop.segmentIndex
  match r.points[segmentIndex]?, r.points[segmentIndex + 1]? with
  | some previous, some current => match r.interpolate previous current cursorUs with
    | .error e => r.fail e
    | .ok target => { r with pc := .read { loop with segmentIndex, now, cursorUs, target } }
  | _, _ => r.atEnd cursorUs

def locate [FloatTrunc F] (loop : Loop F) (now : F) : ProgramRun F :=
  match cursorAt loop.started now with
  | .error e => r.fail (.builtin e)
  | .ok cursorUs => r.locateAt loop now cursorUs

/-- Whether a measured pose is too far from the target. -/
def trackingExceeded (target measured : Pose F) : Bool :=
  PyFloat.lt r.policy.trackingErrorDeg (trackingError target measured) ||
    match r.policy.gripperTrackingErrorPct with
    | none => false
    | some limit => PyFloat.lt limit (deviation target measured .gripper)

/-- The count of violations in a row. -/
def trackViolations (t : Tick F) (measured : Pose F) : ℕ :=
  if r.trackingExceeded t.target measured = true then t.trackingViolations + 1 else 0

/-- The supervision of tracking, after `read_q` returned. -/
def supervise (t : Tick F) (measured : Pose F) : ProgramRun F :=
  let violations := r.trackViolations t measured
  if 5 ≤ violations then
    r.fail (protocolError .trackingError
      (if PyFloat.lt r.policy.trackingErrorDeg (trackingError t.target measured) = true then
        "body tracking error stayed above % deg" else "gripper deviation stayed above %")
      [.float (if PyFloat.lt r.policy.trackingErrorDeg (trackingError t.target measured) = true then
        r.policy.trackingErrorDeg else r.policy.gripperTrackingErrorPct.getD r.policy.trackingErrorDeg)]
      [("measured_error_deg", .float (trackingError t.target measured)),
        ("gripper_error_pct", .float (deviation t.target measured .gripper))])
  else { r with pc := .send { t with trackingViolations := violations } measured }

/-- The section after `send_q`. -/
def publish (t : Tick F) (measured : Pose F) : ProgramRun F :=
  { r with
    cursorUs := t.cursorUs
    measuredQ := some measured
    targetQ := some t.target
    pc := .telemetry t measured r.acceptedUntilUs }

/-- `now - last_telemetry >= telemetry_period_s` -/
def Tick.telemetryDue (t : Tick F) : Bool := match t.lastTelemetry with
  | none => true
  | some last => PyFloat.le t.telemetryPeriodS (PyFloat.sub t.now last)

def emitTelemetry (t : Tick F) (measured : Pose F) (acceptedUntil : ℤ) : ProgramRun F :=
  if Tick.telemetryDue t = true then
    { r.emit (.telemetry r.snapshot (trackingError t.target measured)
        (deviation t.target measured .gripper)
        (decide (acceptedUntil - t.cursorUs < r.policy.lowWaterUs))) with
      pc := .pace { t.toLoop with lastTelemetry := some t.now } }
  else { r with pc := .pace t.toLoop }

/-- `max(0.25, 5 * period_s)` -/
def overrunBudget (loop : Loop F) : F :=
  let five := PyFloat.mul (PyFloat.lit 5) loop.periodS
  if PyFloat.lt (PyFloat.lit 0.25) five = true then five else PyFloat.lit 0.25

/-- The end of a tick: sleep, or fault when the loop is late. -/
def endTick (loop : Loop F) (now : F) : ProgramRun F :=
  let nextTick := PyFloat.add loop.nextTick loop.periodS
  let delay := PyFloat.sub nextTick now
  if PyFloat.lt (PyFloat.lit 0) delay = false ∧
      PyFloat.lt delay (PyFloat.mul (PyFloat.lit (-1)) (overrunBudget loop)) = true then
    r.fail (protocolError .controlCycleOverrun "local motor loop missed its timing budget" [] [])
  else { r with pc := .tick { loop with nextTick } }

/-- A reading of the clock, which never goes back. -/
def readClock (now : F) : Option (ProgramRun F) :=
  if PyFloat.le r.clock now = true then some { r with clock := now } else none

variable [FloatTrunc F]

/-- One step of the thread of `_execute`. -/
def exec (act : Act F) : Option (ProgramRun F) :=
  match r.pc, act with
  | .factory, .returned => some { r.call .created with backend := true, pc := .prepare }
  | .factory, .raised e => some (r.fail e)
  | .prepare, .array a => some { r.call .prepareDisabled with pc := .capture a }
  | .prepare, .raised e => some ((r.call .prepareDisabled).fail e)
  | .capture a, .internal => some (r.capture a)
  | .stopCheck measured, .internal =>
    some (if r.stopEvent = true then
      r.fail (protocolError .cancelled "run was stopped before torque enable" [] [])
    else { r with pc := .enable measured })
  | .enable measured, .returned => some
      { r.call (.enableAtCurrent measured) with torqueEnabled := true, pc := .setRunning }
  | .enable measured, .raised e => some ((r.call (.enableAtCurrent measured)).fail e)
  | .setRunning, .internal => some { r with
      state := .running
      message := py "local closed-loop execution is running"
      pc := .announce }
  | .announce, .internal => some { r.emit (.runState r.snapshot) with pc := .begin }
  | .begin, .clock now => (r.readClock now).map fun r => r.beginLoop now
  | .tick loop, .clock now => (r.readClock now).map fun r => r.beginTick loop now
  | .heartbeatCheck loop now, .internal => some (r.checkHeartbeat loop now)
  | .locate loop now, .internal => some (r.locate loop now)
  | .read t, .pose measured => some ((r.call .readQ).supervise t measured)
  | .read _, .raised e => some ((r.call .readQ).fail e)
  | .send t measured, .returned => some
      { r.call (.sendQ (.interpolated t.cursorUs) t.target) with pc := .publish t measured }
  | .send t _, .raised e => some ((r.call (.sendQ (.interpolated t.cursorUs) t.target)).fail e)
  | .publish t measured, .internal => some (r.publish t measured)
  | .telemetry t measured acceptedUntil, .internal =>
    some (r.emitTelemetry t measured acceptedUntil)
  | .pace loop, .clock now => (r.readClock now).map fun r => r.endTick loop now
  | .sendLast q tUs, .returned => some { r.call (.sendQ .last q) with pc := .publishLast tUs }
  | .sendLast q _, .raised e => some ((r.call (.sendQ .last q)).fail e)
  | .publishLast tUs, .internal => some { r with cursorUs := tUs, pc := .hold ⟨.completed, none⟩ }
  | .fault e, .internal => some
      { r.emit (.fault (e.outcome.code.getD .hardwareFault) e) with pc := .hold e.outcome }
  | .hold o, .internal =>
    if r.backend = false then some { r with pc := .finish o }
    else if r.torqueEnabled = false then some { r with backend := false, pc := .close o }
    else none
  | .hold o, .pose measured =>
    if r.backend = true ∧ r.torqueEnabled = true then
      some { r.call .readQ with backend := false, pc := .holdSend o measured }
    else none
  | .hold o, .raised _ =>
    if r.backend = true ∧ r.torqueEnabled = true then
      some { r.call .readQ with backend := false, pc := .close o }
    else none
  | .holdSend o measured, .returned => some { r.call (.sendQ .hold measured) with pc := .close o }
  | .holdSend o measured, .raised _ => some { r.call (.sendQ .hold measured) with pc := .close o }
  | .close o, .returned => some { r.call .close with torqueEnabled := false, pc := .finish o }
  | .finish o, .internal => some { r with state := o.state, message := o.message, pc := .signal o }
  | .signal o, .internal => some { r with terminalEvent := true, pc := .report o }
  | .report o, .internal => some { r.emit (.runFinished r.snapshot o) with pc := .done }
  | _, _ => none

/-! ## Steps -/

/-- Who acts: a call of a connection handler, or the executor. -/
inductive Label (F : Type) where
  | append (c : Chunk F)
  | start
  | heartbeat (now : F)
  | requestStop (reason : Str)
  | connectionLost
  | exec (act : Act F)

variable [FloatRepr F] [Sha256]

def step (r : ProgramRun F) : Label F → Option (ProgramRun F)
  | .append c => some (r.appendChunk c).2
  | .start => some (match r.start with
    | .ok r' => r'
    | .error _ => r)
  | .heartbeat now => if PyFloat.le r.clock now = true then some (r.heartbeat now) else none
  | .requestStop reason => some (r.requestStop reason)
  | .connectionLost => some r.connectionLost
  | .exec act => r.exec act

end ProgramRun

end Execute

/-! ## A small program -/

section Demo

/-- A pose with the given angle of the first joint. -/
def demoPose (deg : ℚ) : Pose ℚ
  | .shoulderPan => deg
  | _ => 0

/-- One degree and back, in four seconds. -/
def demoPoints : List (TrajectoryPoint ℚ) :=
  [⟨0, demoPose 0⟩, ⟨2000000, demoPose 1⟩, ⟨4000000, demoPose 0⟩]

def demoHeader : ProgramHeader := ⟨[116], .relativeDeg⟩

/-- A run of the demo program in this mode, expected to have this digest. -/
def demoConfig (runMode : RunMode) (expectedDigest : Str) : RunConfig ℚ where
  runId := [114]
  header := demoHeader
  runMode := runMode
  expectedDigest := expectedDigest
  disconnectPolicy := .stopAfterTimeout
  policy := .default
  controlHz := 20
  telemetryHz := 5
  heartbeatTimeoutS := 3
  holdAfterRunS := 0

variable [Sha256]

/-- The digest of the demo program. -/
def demoDigest : Str := (programDigest demoHeader demoPoints).toOption.getD []

/-- A chunk with its digest. -/
def demoChunk (chunkSeq : ℤ) (points : List (TrajectoryPoint ℚ)) (final : Bool) : Chunk ℚ :=
  ⟨chunkSeq, points, final, (chunkDigest chunkSeq points final).toOption.getD []⟩

end Demo

end RemoteRobot.Stream
