import RemoteRobot.Lib.JsonText
import RemoteRobot.Lib.Except
import RemoteRobot.Model

/-!
# The trajectory format of `robot-stream.v1`

`robot_protocol.py`: the records of a trajectory, the safety policy with its checks, the two
digests and the quintic interpolation.  A pose is a number for each joint, so the `zip`s over
`JOINTS` need no length check; the floats are the parameter `F` of the plain values.  The durations
and counts of a policy are natural numbers, as the literals of the source are.
-/

namespace RemoteRobot.Stream

open Py Except

/-! ## Errors -/

/-- The codes of `ProtocolError` behind the handshake. -/
inductive Code where
  | hashMismatch | duplicateConflict | outOfOrder | runStateConflict | chunkSize | invalidTime
  | startStateMismatch | limitViolation | velocityLimit | accelerationLimit | resourceLimit
  | schemaInvalid | queueFull | notReady | hardwareFault | cancelled | heartbeatLost
  | bufferUnderrun | trackingError | controlCycleOverrun | versionUnsupported | modelMismatch
  | jointSetMismatch | unknownMessage
  deriving DecidableEq, Repr

structure ProtocolError (F : Type) where
  code : Code
  message : Message F
  retryable : Bool := false
  details : List (String × Val F) := []

/-- What the run's methods and the motor backend raise. -/
inductive Raised (F : Type) where
  | protocol (e : ProtocolError F)
  | builtin (e : Exc)
  /-- another `Exception`, raised by the backend with this text -/
  | backend (message : Str)

section Errors

variable {F α : Type}

/-- `ProtocolError(code, message, details=details)` -/
def protocolError (code : Code) (text : String) (args : List (Val F))
    (details : List (String × Val F)) : Raised F :=
  .protocol { code, message := ⟨text, args⟩, details }

/-- The exceptions of Python itself, inside those of the run. -/
def liftBuiltin : Except Exc α → Except (Raised F) α
  | .ok a => .ok a
  | .error e => .error (.builtin e)

@[simp] theorem liftBuiltin_eq_ok {x : Except Exc α} {a : α} :
    (liftBuiltin x : Except (Raised F) α) = .ok a ↔ x = .ok a := by
  cases x <;> simp [liftBuiltin]

end Errors

/-! ## Trajectories -/

/-- `JOINTS` -/
inductive Joint where
  | shoulderPan | shoulderLift | elbowFlex | wristFlex | wristRoll | gripper
  deriving DecidableEq, Repr

def Joint.name : Joint → String
  | .shoulderPan => "shoulder_pan"
  | .shoulderLift => "shoulder_lift"
  | .elbowFlex => "elbow_flex"
  | .wristFlex => "wrist_flex"
  | .wristRoll => "wrist_roll"
  | .gripper => "gripper"

/-- `JOINTS` in the canonical order -/
def joints : List Joint :=
  [.shoulderPan, .shoulderLift, .elbowFlex, .wristFlex, .wristRoll, .gripper]

/-- `BODY_INDICES`: every joint but the gripper -/
def bodyJoints : List Joint := [.shoulderPan, .shoulderLift, .elbowFlex, .wristFlex, .wristRoll]

@[simp] theorem mem_joints (j : Joint) : j ∈ joints := by cases j <;> decide

/-- A value for each joint: the `q_deg` tuples and the arrays of the motor bus. -/
abbrev Pose (F : Type) := Joint → F

/-- `COORDINATE_MODES` -/
inductive CoordinateMode where
  | absoluteDeg | relativeDeg
  deriving DecidableEq, Repr

def CoordinateMode.name : CoordinateMode → String
  | .absoluteDeg => "absolute_deg"
  | .relativeDeg => "relative_deg"

/-- A header that passed `from_record`, where `interpolation` and `model` have one value each. -/
structure ProgramHeader where
  programId : Str
  coordinateMode : CoordinateMode

structure TrajectoryPoint (F : Type) where
  tUs : ℤ
  qDeg : Pose F

variable {F : Type}

/-- `ProgramHeader.record` -/
def ProgramHeader.record (h : ProgramHeader) : Val F :=
  dictOf [("type", .str (py "header")), ("format", .str (py "so101-joint-trajectory")),
    ("version", .int 1), ("program_id", .str h.programId), ("model", .str (py "so101-follower")),
    ("joints", .list (joints.map fun j => .str (py j.name))),
    ("coordinate_mode", .str (py h.coordinateMode.name)),
    ("interpolation", .str (py "quintic_stop"))]

/-- `TrajectoryPoint.record` -/
def TrajectoryPoint.record (p : TrajectoryPoint F) : Val F :=
  dictOf [("type", .str (py "point")), ("t_us", .int p.tUs),
    ("q_deg", .list (joints.map fun j => .float (p.qDeg j)))]

/-! ## Digests -/

section Digests

variable [FloatRepr F] [Sha256]

/-- `canonical_json(value).encode("utf-8")` -/
def canonicalBytes (value : Val F) : Except Exc Bytes := do
  let text ← dumps value
  encodeUtf8 text

/-- `(canonical_json(record) + "\n").encode("utf-8")` -/
def recordLine (record : Val F) : Except Exc Bytes := do
  let line ← canonicalBytes record
  .ok (line ++ [10])

/-- `chunk_digest` -/
def chunkDigest (chunkSeq : ℤ) (points : List (TrajectoryPoint F)) (final : Bool) :
    Except Exc Str := do
  let payload ← canonicalBytes (dictOf [("chunk_seq", .int chunkSeq), ("final", .bool final),
    ("points", .list (points.map TrajectoryPoint.record))])
  .ok (hexdigest payload)

/-- `program_digest` -/
def programDigest (header : ProgramHeader) (points : List (TrajectoryPoint F)) :
    Except Exc Str := do
  let first ← recordLine (header.record : Val F)
  let rest ← points.mapM fun p => recordLine p.record
  .ok (hexdigest (first ++ rest.flatten))

omit [Sha256] in
theorem recordLine_of_jsonable {record : Val F} (h : record.Jsonable) :
    ∃ line, recordLine record = .ok line := by
  obtain ⟨text, ht, he⟩ := dumps_of_jsonable record h
  refine ⟨Codec.utf8 text ++ [10], ?_⟩
  unfold recordLine canonicalBytes
  rw [ht]
  show (encodeUtf8 text >>= fun line => .ok (line ++ [10])) = _
  rw [encodeUtf8, if_pos he]
  rfl

omit [FloatRepr F] [Sha256] in
theorem ProgramHeader.record_jsonable {h : ProgramHeader} (hid : encodable h.programId = true) :
    (h.record : Val F).Jsonable := by
  unfold record
  rw [jsonable_dictOf]
  simp [jsonable_list, hid]

omit [FloatRepr F] [Sha256] in
theorem TrajectoryPoint.record_jsonable (p : TrajectoryPoint F) : p.record.Jsonable := by
  unfold record
  rw [jsonable_dictOf]
  simp [jsonable_list]

/-- A program whose identifier can be encoded has a digest. -/
theorem exists_programDigest {header : ProgramHeader} (h : encodable header.programId = true)
    (points : List (TrajectoryPoint F)) : ∃ digest, programDigest header points = .ok digest := by
  obtain ⟨first, hfirst⟩ := recordLine_of_jsonable (header.record_jsonable (F := F) h)
  have hpoints : ∃ lines, points.mapM (fun p => recordLine p.record) = .ok lines := by
    have hrel : List.Forall₂ (fun p q : TrajectoryPoint F => p = q) points points :=
      List.forall₂_same.2 fun _ _ => rfl
    obtain ⟨lines, -, hlines⟩ := exists_mapM_eq_ok (S := fun _ (_ : Bytes) => True)
      (fun p q (_ : p = q) =>
        let ⟨line, hline⟩ := recordLine_of_jsonable q.record_jsonable
        ⟨line, trivial, hline⟩) hrel
    exact ⟨lines, hlines⟩
  obtain ⟨lines, hlines⟩ := hpoints
  refine ⟨hexdigest (first ++ lines.flatten), ?_⟩
  unfold programDigest
  rw [hfirst, hlines]
  rfl

/-- Every chunk has a digest. -/
theorem exists_chunkDigest (chunkSeq : ℤ) (points : List (TrajectoryPoint F)) (final : Bool) :
    ∃ digest, chunkDigest chunkSeq points final = .ok digest := by
  have hjson : (dictOf [("chunk_seq", .int chunkSeq), ("final", .bool final),
      ("points", .list (points.map TrajectoryPoint.record))] : Val F).Jsonable := by
    have hfinal : (Val.bool final : Val F).Jsonable := trivial
    rw [jsonable_dictOf]
    simp [jsonable_list, TrajectoryPoint.record_jsonable, hfinal]
  obtain ⟨text, htext, hencode⟩ := dumps_of_jsonable _ hjson
  refine ⟨hexdigest (Codec.utf8 text), ?_⟩
  unfold chunkDigest canonicalBytes
  rw [htext]
  show (encodeUtf8 text >>= _) = _
  rw [encodeUtf8, if_pos hencode]
  rfl

/-- Only such a program has one. -/
theorem encodable_of_programDigest {header : ProgramHeader} {points : List (TrajectoryPoint F)}
    {digest : Str} (h : programDigest header points = .ok digest) :
    encodable header.programId = true := by
  unfold programDigest recordLine canonicalBytes at h
  simp only [bind_eq_ok] at h
  obtain ⟨_, ⟨_, ⟨text, htext, hline⟩, -⟩, -⟩ := h
  unfold encodeUtf8 at hline
  split_ifs at hline with he
  have hrecord := jsonable_of_dumps (header.record : Val F) htext he
  unfold ProgramHeader.record at hrecord
  rw [jsonable_dictOf] at hrecord
  exact jsonable_str.1 (hrecord ("program_id", .str header.programId) (by simp)).2

omit [FloatRepr F] in
theorem hexdigest_lt (b : Bytes) : ∀ c ∈ hexdigest b, c < 128 := by
  unfold hexdigest
  induction Sha256.digest b with
  | nil => simp [hexlify]
  | cons b bs ih =>
    rw [hexlify, List.forall_mem_cons, List.forall_mem_cons]
    have hb := b.toNat_lt
    exact ⟨hexDigit_lt _ (by omega), hexDigit_lt _ (by omega), ih⟩

theorem lt_of_programDigest {header : ProgramHeader} {points : List (TrajectoryPoint F)}
    {digest : Str} (h : programDigest header points = .ok digest) : ∀ c ∈ digest, c < 128 := by
  unfold programDigest at h
  obtain ⟨_, -, h⟩ := bind_eq_ok.1 h
  obtain ⟨_, -, h⟩ := bind_eq_ok.1 h
  cases h
  exact hexdigest_lt _

end Digests

/-- `hmac.compare_digest(a, b)` of two strings, which must be ASCII -/
def compareDigest (a b : Str) : Except Exc Bool :=
  if a.all (· < 128) && b.all (· < 128) then .ok (a == b) else .error .typeError

theorem compareDigest_eq_ok {a b : Str} {eq : Bool} : compareDigest a b = .ok eq ↔
    (∀ c ∈ a, c < 128) ∧ (∀ c ∈ b, c < 128) ∧ (a == b) = eq := by
  unfold compareDigest
  split_ifs with h <;> simp only [Bool.and_eq_true, List.all_eq_true, decide_eq_true_eq] at h
  · rw [Except.ok.injEq]
    exact ⟨fun he => ⟨h.1, h.2, he⟩, fun he => he.2.2⟩
  · exact ⟨fun he => (by cases he), fun ⟨ha, hb, _⟩ => absurd ⟨ha, hb⟩ h⟩

theorem compareDigest_eq_true {a b : Str} (h : compareDigest a b = .ok true) : a = b :=
  beq_iff_eq.1 (compareDigest_eq_ok.1 h).2.2

/-! ## The safety policy -/

structure SafetyPolicy (F : Type) where
  jointMinDeg : Pose F
  jointMaxDeg : Pose F
  maxRelativeDeg : F
  maxVelocityDegS : F
  maxAccelerationDegS2 : F
  minSegmentUs : ℕ := 100000
  maxPoints : ℕ := 100000
  maxDurationUs : ℕ := 3600000000
  maxChunkPoints : ℕ := 512
  maxHorizonUs : ℕ := 30000000
  startBufferUs : ℕ := 2000000
  lowWaterUs : ℕ := 1000000
  startToleranceDeg : F
  trackingErrorDeg : F
  gripperTrackingErrorPct : Option F := none

section Policy

variable [PyFloat F]

/-- `SafetyPolicy()` -/
def SafetyPolicy.default : SafetyPolicy F where
  jointMinDeg _ := PyFloat.lit (-100)
  jointMaxDeg _ := PyFloat.lit 100
  maxRelativeDeg := PyFloat.lit 45
  maxVelocityDegS := PyFloat.lit 30
  maxAccelerationDegS2 := PyFloat.lit 120
  startToleranceDeg := PyFloat.lit 5
  trackingErrorDeg := PyFloat.lit 15

/-- `lo <= value <= hi` -/
def within (lo hi value : F) : Bool := PyFloat.le lo value && PyFloat.le value hi

/-- `SafetyPolicy.validate_position` -/
def SafetyPolicy.validatePosition (policy : SafetyPolicy F) (point : TrajectoryPoint F)
    (mode : CoordinateMode) : Except (Raised F) Unit :=
  joints.forM fun j => match mode with
    | .relativeDeg =>
      raiseWhen (PyFloat.lt policy.maxRelativeDeg (PyFloat.abs (point.qDeg j)) = true)
        (protocolError .limitViolation "relative % value % exceeds ±% deg"
          [.str (py j.name), .float (point.qDeg j), .float policy.maxRelativeDeg]
          [("joint", .str (py j.name)), ("t_us", .int point.tUs)])
    | .absoluteDeg =>
      raiseWhen (within (policy.jointMinDeg j) (policy.jointMaxDeg j) (point.qDeg j) = false)
        (protocolError .limitViolation "% value % is outside server limits"
          [.str (py j.name), .float (point.qDeg j)]
          [("joint", .str (py j.name)), ("t_us", .int point.tUs)])

/-- `SafetyPolicy.validate_segment` -/
def SafetyPolicy.validateSegment (policy : SafetyPolicy F) (previous current : TrajectoryPoint F) :
    Except (Raised F) Unit := do
  let dtUs := current.tUs - previous.tUs
  raiseWhen (dtUs < policy.minSegmentUs)
    (protocolError .invalidTime "segments must be at least % us" [.int policy.minSegmentUs]
      [("previous_t_us", .int previous.tUs), ("t_us", .int current.tUs)])
  let dtS ← liftBuiltin (PyFloat.truediv dtUs 1000000)
  joints.forM fun j => do
    let distance := PyFloat.abs (PyFloat.sub (current.qDeg j) (previous.qDeg j))
    let peakVelocity ← liftBuiltin (PyFloat.div (PyFloat.mul (PyFloat.lit 1.875) distance) dtS)
    let peakAcceleration ← liftBuiltin (PyFloat.div
      (PyFloat.mul (PyFloat.lit 5.773503) distance) (PyFloat.mul dtS dtS))
    raiseWhen (PyFloat.lt policy.maxVelocityDegS peakVelocity = true)
      (protocolError .velocityLimit "% would reach % deg/s"
        [.str (py j.name), .float peakVelocity]
        [("joint", .str (py j.name)), ("limit", .float policy.maxVelocityDegS)])
    raiseWhen (PyFloat.lt policy.maxAccelerationDegS2 peakAcceleration = true)
      (protocolError .accelerationLimit "% would reach % deg/s²"
        [.str (py j.name), .float peakAcceleration]
        [("joint", .str (py j.name)), ("limit", .float policy.maxAccelerationDegS2)])

/-- A segment that passed is not shorter than the policy's shortest. -/
theorem SafetyPolicy.minSegment_of_validate {policy : SafetyPolicy F}
    {previous current : TrajectoryPoint F} (h : policy.validateSegment previous current = .ok ()) :
    previous.tUs + policy.minSegmentUs ≤ current.tUs := by
  unfold validateSegment at h
  simp only [bind_eq_ok, raiseWhen_eq_ok] at h
  obtain ⟨-, hdt, -⟩ := h
  omega

theorem SafetyPolicy.within_of_validate {policy : SafetyPolicy F} {point : TrajectoryPoint F}
    (h : policy.validatePosition point .absoluteDeg = .ok ()) (j : Joint) :
    within (policy.jointMinDeg j) (policy.jointMaxDeg j) (point.qDeg j) = true := by
  unfold validatePosition at h
  have := forM_eq_ok.1 h j (mem_joints j)
  simp only [raiseWhen_eq_ok, Bool.not_eq_false] at this
  exact this

/-! ## Interpolation -/

/-- `interpolate_quintic`; the division is never by zero, since `t_us` lies between the times. -/
def interpolateQuintic (previous current : TrajectoryPoint F) (tUs : ℤ) : Except Exc (Pose F) :=
  if tUs ≤ previous.tUs then .ok previous.qDeg
  else if current.tUs ≤ tUs then .ok current.qDeg
  else do
    let u ← PyFloat.truediv (tUs - previous.tUs) (current.tUs - previous.tUs)
    let blend := PyFloat.mul (PyFloat.mul (PyFloat.mul u u) u)
      (PyFloat.add (PyFloat.lit 10)
        (PyFloat.mul u (PyFloat.add (PyFloat.lit (-15)) (PyFloat.mul (PyFloat.lit 6) u))))
    .ok fun j => PyFloat.add (previous.qDeg j)
      (PyFloat.mul (PyFloat.sub (current.qDeg j) (previous.qDeg j)) blend)

end Policy

end RemoteRobot.Stream
