import RemoteRobot.Stream.Trajectory

/-!
# A client that streams its program

The streaming mode of `robot_client.py` against a server with the default policy, over a channel
without loss or delay: a message is answered within the step that sends it, and after every step of
the server the client knows its cursor and sends the chunks that are due.

The client counts in whole chunks.  It buffers them up to the lookahead before the start, and behind
it waits for each until its end is no farther ahead; it knows neither the server's horizon nor
whether the server gets by until then.  The run keeps up where both happen to fit.
-/

namespace RemoteRobot.Stream

open Py Except

variable {F : Type}

/-! ## Programs -/

section Load

variable [PyFloat F]

/-- The loop of `validate_points`. -/
def validateEach (policy : SafetyPolicy F) (mode : CoordinateMode) :
    Option (TrajectoryPoint F) → List (TrajectoryPoint F) → Except (Raised F) Unit
  | _, [] => .ok ()
  | previous, point :: points => do
    raiseWhen (point.tUs < 0 ∨ policy.maxDurationUs < point.tUs)
      (protocolError .invalidTime "point time is outside the server duration limit" [] [])
    policy.validatePosition point mode
    match previous with
    | none => .ok ()
    | some previous => policy.validateSegment previous point
    validateEach policy mode (some point) points

/-- `validate_points` -/
def validatePoints (header : ProgramHeader) (points : List (TrajectoryPoint F))
    (policy : SafetyPolicy F) (requireComplete : Bool) : Except (Raised F) Unit :=
  match points with
  | [] => .error (protocolError .schemaInvalid "trajectory contains no points" [] [])
  | first :: _ => do
    raiseWhen (policy.maxPoints < points.length)
      (protocolError .resourceLimit "trajectory contains too many points" [] [])
    raiseWhen (first.tUs ≠ 0)
      (protocolError .invalidTime "the first point must have t_us=0" [] [])
    raiseWhen (header.coordinateMode = .relativeDeg ∧
        joints.any (fun j => PyFloat.lt (PyFloat.lit 1e-9) (PyFloat.abs (first.qDeg j))) = true)
      (protocolError .startStateMismatch "a relative trajectory must start at all-zero offsets" []
        [])
    validateEach policy header.coordinateMode none points
    raiseWhen (requireComplete = true ∧ points.length < 2)
      (protocolError .schemaInvalid "a complete trajectory needs at least two points" [] [])

theorem validateEach_eq_ok {policy : SafetyPolicy F} {mode : CoordinateMode}
    {previous : Option (TrajectoryPoint F)} {points : List (TrajectoryPoint F)} :
    validateEach policy mode previous points = .ok () ↔
      (∀ p ∈ points, 0 ≤ p.tUs ∧ p.tUs ≤ policy.maxDurationUs ∧
        policy.validatePosition p mode = .ok ()) ∧
      (previous.toList ++ points).IsChain (ProgramRun.SegmentOk policy) := by
  induction points generalizing previous with
  | nil => cases previous <;> simp [validateEach]
  | cons p points ih =>
    cases previous with
    | none =>
      simp only [validateEach, bind_eq_ok, exists_unit, raiseWhen_eq_ok, ih, List.forall_mem_cons]
      simp
      tauto
    | some q =>
      simp only [validateEach, bind_eq_ok, exists_unit, raiseWhen_eq_ok, ih, List.forall_mem_cons]
      simp [ProgramRun.SegmentOk]
      tauto

/-- What the pacing uses of an accepted program. -/
theorem validatePoints_eq_ok {header : ProgramHeader} {points : List (TrajectoryPoint F)}
    {policy : SafetyPolicy F} (h : validatePoints header points policy true = .ok ()) :
    2 ≤ points.length ∧ (∀ p ∈ points.head?, p.tUs = 0) ∧
      points.IsChain (ProgramRun.SegmentOk policy) := by
  unfold validatePoints at h
  split at h
  · cases h
  · simp only [bind_eq_ok, exists_unit, raiseWhen_eq_ok, not_and, not_lt, not_not] at h
    obtain ⟨-, hfirst, -, heach, htwo⟩ := h
    refine ⟨htwo trivial, fun p hp => ?_, (validateEach_eq_ok.1 heach).2⟩
    cases hp
    exact hfirst

end Load

/-! ## The client -/

/-- The arguments of `run_program`: a program `load_program` accepts, with its digest, and the
chunk size and the lookahead `main` admits. -/
structure Upload (F : Type) [PyFloat F] [FloatRepr F] [Sha256] where
  header : ProgramHeader
  points : List (TrajectoryPoint F)
  digest : Str
  chunkPoints : ℕ
  targetAheadUs : ℤ
  load : validatePoints header points .default true = .ok ()
  hash : programDigest header points = .ok digest
  chunkPoints_mem : 1 ≤ chunkPoints ∧ chunkPoints ≤ 512
  target_mem : 2000000 ≤ targetAheadUs ∧ targetAheadUs ≤ 25000000

inductive Phase where
  /-- before `start` is due -/
  | buffering
  /-- before `start` -/
  | starting
  /-- in `stream_remaining_chunks` -/
  | producing
  /-- an exception left `run_program` -/
  | failed
  deriving DecidableEq

/-- The run of the server, and the client in the middle of its upload. -/
structure Streaming (F : Type) where
  run : ProgramRun F
  nextChunk : ℕ := 0
  phase : Phase := .buffering
  /-- what the server raised at the client's messages -/
  refusals : List (Raised F) := []

namespace Upload

variable [PyFloat F] [FloatTrunc F] [FloatRepr F] [Sha256] (u : Upload F) (s : Streaming F)

/-- `len(chunks)` -/
def count : ℕ := (u.points.length + u.chunkPoints - 1) / u.chunkPoints

/-- `chunks[j]`, of `split_chunks` -/
def chunk (j : ℕ) : List (TrajectoryPoint F) :=
  (u.points.drop (j * u.chunkPoints)).take u.chunkPoints

/-- `chunks[j][-1].t_us` -/
def endUs (j : ℕ) : ℤ := ((u.chunk j).getLast?.map TrajectoryPoint.tUs).getD 0

/-- `points[-1].t_us` -/
def lastUs : ℤ := (u.points.getLast?.map TrajectoryPoint.tUs).getD 0

/-- `prebuffer_us` -/
def prebufferUs : ℤ := min u.targetAheadUs u.lastUs

/-- The server's run behind the client's `open_run`. -/
def openRun (cfg : RunConfig F) (now : F) : Streaming F where
  run := .init { cfg with
    header := u.header
    runMode := .streaming
    expectedDigest := u.digest
    policy := .default } now

/-- An exception leaves `run_program`: the client cancels a run it started and closes. -/
def giveUp : Streaming F := { s with
  phase := .failed
  run := (if s.phase = .buffering then s.run
    else s.run.requestStop (py "client-side failure")).connectionLost }

/-- `send_chunk` of the next chunk, with its receipt. -/
def sendChunk : Streaming F × Option Receipt :=
  let final := decide (s.nextChunk + 1 = u.count)
  match chunkDigest s.nextChunk (u.chunk s.nextChunk) final with
  | .error _ => (giveUp s, none)
  | .ok digest => match s.run.appendChunk ⟨s.nextChunk, u.chunk s.nextChunk, final, digest⟩ with
    | (.error e, run) => (giveUp { s with run, refusals := s.refusals ++ [e] }, none)
    | (.ok receipt, run) => ({ s with run, nextChunk := s.nextChunk + 1 }, some receipt)

/-- A turn of the loop that buffers before the start. -/
def buffer : Streaming F := match u.sendChunk s with
  | (s, none) => s
  | (s, some receipt) =>
    if u.prebufferUs ≤ receipt.acceptedUntilUs ∨ ¬s.nextChunk < u.count then
      { s with phase := .starting }
    else s

/-- The message `start`. -/
def sendStart : Streaming F := match s.run.start with
  | .error e => giveUp { s with refusals := s.refusals ++ [e] }
  | .ok run => { s with run, phase := .producing }

/-- `stream_remaining_chunks` from where it stands, up to the next chunk that has to wait. -/
def produce : ℕ → Streaming F → Streaming F
  | 0, s => s
  | n + 1, s =>
    if s.phase = .producing ∧ s.nextChunk < u.count ∧
        u.endUs s.nextChunk - s.run.cursorUs ≤ u.targetAheadUs then
      produce n (u.sendChunk s).1
    else s

/-- The client catches up with the server's cursor. -/
def catchUp : Streaming F := u.produce (u.count - s.nextChunk) s

/-- Who acts. -/
inductive Label (F : Type) where
  /-- the client, up to the start -/
  | client
  | heartbeat (now : F)
  /-- a stop by somebody else -/
  | stop (reason : Str)
  | exec (act : Act F)

def step : Label F → Option (Streaming F)
  | .client => match s.phase with
    | .buffering => some (u.buffer s)
    | .starting => some (u.catchUp (sendStart s))
    | _ => none
  | .heartbeat now =>
    if PyFloat.le s.run.clock now = true then some { s with run := s.run.heartbeat now } else none
  | .stop reason => some { s with run := s.run.requestStop reason }
  | .exec act => (s.run.exec act).map fun run => u.catchUp { s with run }

end Upload

/-! ## Refusals -/

/-- The codes that say a message came too early or too late. -/
def Code.isPacing : Code → Bool
  | .queueFull | .runStateConflict | .notReady => true
  | _ => false

/-- The server refused a message for its time. -/
def Raised.IsPacing : Raised F → Prop
  | .protocol e => e.code.isPacing = true
  | _ => False

theorem not_isPacing_protocolError {code : Code} (h : code.isPacing = false) {text : String}
    {args : List (Val F)} {details : List (String × Val F)} :
    ¬(protocolError code text args details).IsPacing := by
  intro hp
  rw [show code.isPacing = true from hp] at h
  cases h

theorem not_isPacing_liftBuiltin {α : Type} {x : Except Exc α} {e : Raised F}
    (h : liftBuiltin x = .error e) : ¬e.IsPacing := by
  cases x <;> cases h
  exact id

namespace ProgramRun

variable [PyFloat F] {r : ProgramRun F}

theorem not_isPacing_validatePosition {policy : SafetyPolicy F} {p : TrajectoryPoint F}
    {mode : CoordinateMode} {e : Raised F} (h : policy.validatePosition p mode = .error e) :
    ¬e.IsPacing := by
  obtain ⟨j, -, hj⟩ := exists_of_forM_eq_error h
  split at hj
  · obtain ⟨-, rfl⟩ := raiseWhen_eq_error.1 hj
    exact not_isPacing_protocolError rfl
  · obtain ⟨-, rfl⟩ := raiseWhen_eq_error.1 hj
    exact not_isPacing_protocolError rfl

theorem not_isPacing_validateSegment {policy : SafetyPolicy F} {p q : TrajectoryPoint F}
    {e : Raised F} (h : policy.validateSegment p q = .error e) : ¬e.IsPacing := by
  unfold SafetyPolicy.validateSegment at h
  rcases bind_eq_error.1 h with h | ⟨_, -, h⟩
  · obtain ⟨-, rfl⟩ := raiseWhen_eq_error.1 h
    exact not_isPacing_protocolError rfl
  · rcases bind_eq_error.1 h with h | ⟨dtS, -, h⟩
    · exact not_isPacing_liftBuiltin h
    · obtain ⟨j, -, hj⟩ := exists_of_forM_eq_error h
      rcases bind_eq_error.1 hj with hj | ⟨_, -, hj⟩
      · exact not_isPacing_liftBuiltin hj
      · rcases bind_eq_error.1 hj with hj | ⟨_, -, hj⟩
        · exact not_isPacing_liftBuiltin hj
        · rcases bind_eq_error.1 hj with hj | ⟨_, -, hj⟩ <;>
            obtain ⟨-, rfl⟩ := raiseWhen_eq_error.1 hj <;>
            exact not_isPacing_protocolError rfl

theorem not_isPacing_validateResolvedPosition {p : TrajectoryPoint F} {e : Raised F}
    (h : r.validateResolvedPosition p = .error e) : ¬e.IsPacing := by
  unfold validateResolvedPosition at h
  split at h
  · obtain ⟨j, -, hj⟩ := exists_of_forM_eq_error h
    obtain ⟨-, rfl⟩ := raiseWhen_eq_error.1 hj
    exact not_isPacing_protocolError rfl
  · cases h

theorem not_isPacing_validateFirst {p : TrajectoryPoint F} {e : Raised F}
    (h : r.validateFirst p = .error e) : ¬e.IsPacing := by
  unfold validateFirst at h
  rcases bind_eq_error.1 h with h | ⟨_, -, h⟩ <;>
    obtain ⟨-, rfl⟩ := raiseWhen_eq_error.1 h <;>
    exact not_isPacing_protocolError rfl

theorem not_isPacing_validatePoints {previous : Option (TrajectoryPoint F)}
    {points : List (TrajectoryPoint F)} {e : Raised F}
    (h : r.validatePoints previous points = .error e) : ¬e.IsPacing := by
  induction points generalizing previous with
  | nil => cases h
  | cons p points ih =>
    have hrest : (do
        r.policy.validatePosition p r.header.coordinateMode
        r.validateResolvedPosition p
        r.validatePoints (some p) points) = .error e → ¬e.IsPacing := by
      intro h
      rcases bind_eq_error.1 h with h | ⟨_, -, h⟩
      · exact not_isPacing_validatePosition h
      · rcases bind_eq_error.1 h with h | ⟨_, -, h⟩
        · exact not_isPacing_validateResolvedPosition h
        · exact ih h
    cases previous with
    | none =>
      rcases bind_eq_error.1 h with h | ⟨_, -, h⟩
      · exact not_isPacing_validateFirst h
      · exact hrest h
    | some q =>
      rcases bind_eq_error.1 h with h | ⟨_, -, h⟩
      · exact not_isPacing_validateSegment h
      · exact hrest h

/-- A chunk is refused for its time where the run takes none any more, or where the chunk ends
behind the horizon. -/
theorem validateChunk_isPacing {c : Chunk F} {e : Raised F} (h : r.validateChunk c = .error e)
    (hp : e.IsPacing) : (¬(r.state = .buffering ∨ r.state = .running) ∨ r.finalReceived = true) ∨
      r.policy.maxHorizonUs < (r.extend c).acceptedUntilUs - r.cursorUs := by
  unfold validateChunk at h
  rcases bind_eq_error.1 h with h | ⟨_, -, h⟩
  · obtain ⟨-, rfl⟩ := raiseWhen_eq_error.1 h
    exact absurd hp (not_isPacing_protocolError rfl)
  rcases bind_eq_error.1 h with h | ⟨_, -, h⟩
  · exact .inl (raiseWhen_eq_error.1 h).1
  rcases bind_eq_error.1 h with h | ⟨_, hlength, h⟩
  · obtain ⟨-, rfl⟩ := raiseWhen_eq_error.1 h
    exact absurd hp (not_isPacing_protocolError rfl)
  rcases bind_eq_error.1 h with h | ⟨_, -, h⟩
  · exact absurd hp (not_isPacing_validatePoints h)
  rcases bind_eq_error.1 h with h | ⟨_, -, h⟩
  · obtain ⟨-, rfl⟩ := raiseWhen_eq_error.1 h
    exact absurd hp (not_isPacing_protocolError rfl)
  rcases bind_eq_error.1 h with h | ⟨_, -, h⟩
  · obtain ⟨-, rfl⟩ := raiseWhen_eq_error.1 h
    exact absurd hp (not_isPacing_protocolError rfl)
  · have hne : c.points ≠ [] := fun hnil => (raiseWhen_eq_ok.1 hlength) (.inl hnil)
    rw [acceptedUntilUs_extend hne]
    exact .inr (raiseWhen_eq_error.1 h).1.2

variable [FloatRepr F] [Sha256]

theorem validateChunk_of_isPacing {c : Chunk F} {e : Raised F}
    (h : (r.appendChunk c).1 = .error e) (hp : e.IsPacing) : r.validateChunk c = .error e := by
  unfold appendChunk at h
  split at h
  · cases h
    cases hp
  · split at h
    · cases h
      cases hp
    · cases h
      cases hp
    · split at h
      · split at h <;> cases h
        · cases hp
        · cases hp
      · unfold appendNew at h
        split at h
        · rename_i he
          cases h
          exact he
        · simp only at h
          split_ifs at h
          · split at h <;> cases h
            · cases hp
            · cases hp
          · cases h

omit [PyFloat F] [FloatRepr F] [Sha256] in
/-- `start` refuses a run that waits for its start, where it has no two points or too little in
its buffer. -/
theorem start_eq_error {e : Raised F} (h : r.start = .error e) (hs : r.state = .buffering) :
    r.points.length < 2 ∨ (r.runMode = .sealed ∧ r.finalReceived = false) ∨
      (r.finalReceived = false ∧ r.acceptedUntilUs < r.policy.startBufferUs) := by
  unfold start at h
  rcases bind_eq_error.1 h with h | ⟨_, -, h⟩
  · exact absurd hs (raiseWhen_eq_error.1 h).1
  rcases bind_eq_error.1 h with h | ⟨_, -, h⟩
  · exact .inl (raiseWhen_eq_error.1 h).1
  rcases bind_eq_error.1 h with h | ⟨_, -, h⟩
  · exact .inr (.inl (raiseWhen_eq_error.1 h).1)
  rcases bind_eq_error.1 h with h | ⟨_, -, h⟩
  · exact .inr (.inr (raiseWhen_eq_error.1 h).1.2)
  · cases h

end ProgramRun

end RemoteRobot.Stream
