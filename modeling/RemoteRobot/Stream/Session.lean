import RemoteRobot.Stream.Records
import RemoteRobot.Stream.Chunks
import RemoteRobot.Stream.Controller

/-!
# The messages of a session

The loop of `connection_handler` behind the handshake, on any JSON value a client sends.  A message
is answered in one step, since the event loop runs one handler at a time; between them the threads of
the runs go on.  `outgoing` is the queue of a connection, with the replies of the handler and the
events of its run.

Three kinds of exception become an error reply, any other one ends the session.  `Regular` says of
each message that it reaches no other one, and that it is not the final chunk whose digest cannot be
compared, which is refused with its points kept.
-/

namespace RemoteRobot.Stream

open Py Except

variable {F : Type}

/-! ## Reading a message -/

/-- `int(s)` of a string and of a byte string, none for its `ValueError` -/
class IntText where
  ofStr : Str → Option ℤ
  ofBytes : Bytes → Option ℤ

/-- `int(x)` -/
def pyInt [FloatTrunc F] [IntText] : Val F → Except Exc ℤ
  | .bool b => .ok b.toInt
  | .int n => .ok n
  | .float x => FloatTrunc.trunc x
  | .str s => orRaise (IntText.ofStr s) .valueError
  | .bytes b => orRaise (IntText.ofBytes b) .valueError
  | _ => .error .typeError

/-- `message.get("k", default)` -/
def fieldOr (k : String) (default : Val F) (kvs : Dict F) : Val F :=
  (lookup (py k) kvs).getD default

/-- What `decode_message` asks of the JSON value: an object whose `type` is a string. -/
def decodeMessage : Val F → Option (Dict F × Str)
  | .dict kvs => match lookup (py "type") kvs with
    | some (.str kind) => some (kvs, kind)
    | _ => none
  | _ => none

section Reading

variable [PyFloat F] [PyText F]

/-- The arguments of `open_run`, in the order of evaluation; `header_value` is an object. -/
def readOpen (kvs header : Dict F) : Except (Raised F) OpenRequest := do
  let runId ← liftBuiltin (fieldOr "run_id" (.str []) kvs).pyStr
  let header ← ProgramHeader.fromRecord (.dict header)
  let runMode ← liftBuiltin (fieldOr "run_mode" (.str []) kvs).pyStr
  let expectedDigest ← liftBuiltin (fieldOr "program_digest" (.str []) kvs).pyStr
  let disconnectPolicy ← liftBuiltin
    (fieldOr "disconnect_policy" (.str (py "stop_after_timeout")) kvs).pyStr
  .ok { runId, header, runMode, expectedDigest, disconnectPolicy }

/-- The arguments of `append_chunk`. -/
def readChunk [FloatTrunc F] [IntText] (kvs : Dict F) (values : List (Val F)) :
    Except (Raised F) (Chunk F) := do
  let points ← values.mapM TrajectoryPoint.fromRecord
  let chunkSeq ← liftBuiltin (pyInt (fieldOr "chunk_seq" (.int (-1)) kvs))
  let digest ← liftBuiltin (fieldOr "digest" (.str []) kvs).pyStr
  .ok { chunkSeq, points, final := (fieldOr "final" (.bool false) kvs).truthy, digest }

end Reading

/-! ## Replies -/

/-- The successful replies.  Without a run the fields of one are not sent. -/
inductive Reply (F : Type) where
  | runOpened (snapshot : Snapshot F)
  | chunkAccepted (receipt : Receipt)
  | runState (snapshot : Snapshot F)
  | heartbeatAck (runId : Option Str) (state : Option RunState)
  | status (snapshot : Option (Snapshot F))
  | stopAccepted (runId : Option Str) (state : Option RunState) (reason : Str)

/-- An entry of the queue: the reply to a message, which may be `exc.event()` with an exception of
Python wrapped as `SCHEMA_INVALID`, or an event of a run. -/
inductive Queued (F : Type) where
  | reply (r : Except (Raised F) (Reply F))
  | event (e : Event F)

def Queued.reply? : Queued F → Option (Except (Raised F) (Reply F))
  | .reply r => some r
  | .event _ => none

/-- The server with the queues of its connections. -/
structure Server (F : Type) extends ProgramController F where
  outgoing : ℕ → List (Queued F) := fun _ => []

namespace ProgramController

variable (c : ProgramController F)

/-- The run of a connection, with its index. -/
def runOf (i : ℕ) : Option (ℕ × ProgramRun F) :=
  (c.connections i).run.bind fun j => (c.runs[j]?).map fun run => (j, run)

/-- `self.active`, with its index -/
def activeRun : Option (ℕ × ProgramRun F) :=
  c.active.bind fun j => (c.runs[j]?).map fun run => (j, run)

def setRun (j : ℕ) (run : ProgramRun F) : ProgramController F :=
  { c with runs := c.runs.set j run }

/-! ### The branches of the loop

Each gives the reply or the exception, and the state it leaves. -/

def onStart (i : ℕ) : Except (Raised F) (Reply F) × ProgramController F :=
  match c.runOf i with
  | none => (.error (protocolError .runStateConflict "open_run is required first" [] []), c)
  | some (j, run) => match run.start with
    | .error e => (.error e, c)
    | .ok run' => (.ok (.runState run'.snapshot), c.setRun j run')

def onHeartbeat (i : ℕ) (now : F) : Except (Raised F) (Reply F) × ProgramController F :=
  match c.runOf i with
  | none => (.ok (.heartbeatAck none (c.activeRun.map fun a => a.2.state)), c)
  | some (j, run) =>
    (.ok (.heartbeatAck (some run.runId) (some run.state)), c.setRun j (run.heartbeat now))

def onEmergencyStop : Except (Raised F) (Reply F) × ProgramController F :=
  let reason := py "remote emergency-stop request"
  match c.activeRun with
  | none => (.ok (.stopAccepted none none reason), c)
  | some (j, run) =>
    (.ok (.stopAccepted (some run.runId) (some run.state) reason),
      c.setRun j (run.requestStop reason))

section Messages

variable [PyFloat F] [PyText F]

def onOpen (i : ℕ) (now : F) (kvs : Dict F) : Except (Raised F) (Reply F) × ProgramController F :=
  match (c.connections i).run with
  | some _ => (.error (protocolError .runStateConflict "this connection already opened a run" []
      []), c)
  | none => match field "header" kvs with
    | .dict header => match readOpen kvs header with
      | .error e => (.error e, c)
      | .ok request => match c.openRun request with
        | .error e => (.error e, c)
        | .ok cfg => (.ok (.runOpened (ProgramRun.init cfg now).snapshot), c.create i cfg now)
    | _ => (.error (protocolError .schemaInvalid "open_run.header must be an object" [] []), c)

def onCancel (i : ℕ) (kvs : Dict F) : Except (Raised F) (Reply F) × ProgramController F :=
  match c.runOf i with
  | none => (.error (protocolError .runStateConflict "this connection has no run" [] []), c)
  | some (j, run) => match (fieldOr "reason" (.str (py "client cancel")) kvs).pyStr with
    | .error e => (.error (.builtin e), c)
    | .ok reason => (.ok (.stopAccepted (some run.runId) (some run.state) reason),
        c.setRun j (run.requestStop reason))

variable [FloatTrunc F] [IntText] [FloatRepr F] [Sha256]

def onChunk (i : ℕ) (kvs : Dict F) : Except (Raised F) (Reply F) × ProgramController F :=
  match c.runOf i with
  | none => (.error (protocolError .runStateConflict "open_run is required first" [] []), c)
  | some (j, run) => match field "points" kvs with
    | .list values => match readChunk kvs values with
      | .error e => (.error e, c)
      | .ok chunk => match run.appendChunk chunk with
        | (.error e, run') => (.error e, c.setRun j run')
        | (.ok receipt, run') => (.ok (.chunkAccepted receipt), c.setRun j run')
    | _ => (.error (protocolError .schemaInvalid "chunk.points must be an array" [] []), c)

/-- The chain over `kind`. -/
def dispatch (i : ℕ) (now : F) (kvs : Dict F) (kind : Str) :
    Except (Raised F) (Reply F) × ProgramController F :=
  if kind = py "open_run" then c.onOpen i now kvs
  else if kind = py "chunk" then c.onChunk i kvs
  else if kind = py "start" then c.onStart i
  else if kind = py "heartbeat" then c.onHeartbeat i now
  else if kind = py "status" then (.ok (.status (c.activeRun.map fun a => a.2.snapshot)), c)
  else if kind = py "cancel" then c.onCancel i kvs
  else if kind = py "emergency_stop" then c.onEmergencyStop
  else (.error (protocolError .unknownMessage "unknown message type: %" [.str kind] []), c)

/-- The `try` block of the loop, at the clock reading `now`. -/
def answer (i : ℕ) (now : F) (message : Val F) :
    Except (Raised F) (Reply F) × ProgramController F :=
  match decodeMessage message with
  | none => (.error (protocolError .schemaInvalid "every message must be an object with a type" []
      []), c)
  | some (kvs, kind) => c.dispatch i now kvs kind

end Messages

end ProgramController

instance (e : Raised F) : Decidable e.Caught := by
  cases e <;> unfold Raised.Caught <;> infer_instance

namespace Server

variable (s : Server F)

def init (settings : Settings F) : Server F := { ProgramController.init settings with }

/-- `outgoing.put` -/
def put (i : ℕ) (entry : Queued F) : Server F :=
  { s with outgoing := Function.update s.outgoing i (s.outgoing i ++ [entry]) }

/-- The end of the handler: `connection_lost` of its run. -/
def leave (i : ℕ) : Server F :=
  let c := match s.runOf i with
    | none => s.toProgramController
    | some (j, run) => s.setRun j run.connectionLost
  { s with
    toProgramController := { c with
      connections := Function.update c.connections i { c.connections i with closed := true } } }

/-- Who acts. -/
inductive Label (F : Type) where
  /-- the handler `i` takes a message -/
  | receive (i : ℕ) (message : Val F) (now : F)
  /-- an event of a run reaches the queue of the connection `i` -/
  | emitted (i : ℕ) (event : Event F)
  /-- the connection `i` is closed -/
  | disconnect (i : ℕ)
  /-- the signal handler of the server -/
  | shutdown
  /-- the thread of the run `j` -/
  | exec (j : ℕ) (act : Act F)

variable [PyFloat F] [PyText F] [FloatTrunc F] [IntText] [FloatRepr F] [Sha256]

/-- A message answered: a caught exception becomes an error reply, any other one ends the
session. -/
def serve (i : ℕ) (now : F) (message : Val F) : Server F :=
  match s.toProgramController.answer i now message with
  | (.ok reply, c) => { s with toProgramController := c }.put i (.reply (.ok reply))
  | (.error e, c) =>
    let s' : Server F := { s with toProgramController := c }
    if e.Caught then s'.put i (.reply (.error e)) else s'.leave i

def step (s : Server F) : Label F → Option (Server F)
  | .receive i message now =>
    if (s.connections i).closed = true then none else some (s.serve i now message)
  | .emitted i event => some (s.put i (.event event))
  | .disconnect i => if (s.connections i).closed = true then none else some (s.leave i)
  | .shutdown => match s.activeRun with
    | none => some s
    | some (j, run) =>
      some { s with toProgramController := s.setRun j (run.requestStop (py "server shutdown")) }
  | .exec j act => do
    let run ← s.runs[j]?
    let run' ← run.step (.exec act)
    some { s with toProgramController := s.setRun j run' }

end Server

/-! ## What each branch raises -/

section Raises

variable [PyFloat F] [PyText F]

/-- The texts are read in order, each raising what a session catches where the reader comes to it. -/
def TextsRegular : List (Val F) → Prop
  | [] => True
  | v :: vs => TextRegular v ∧ ((∃ s, v.pyStr = .ok s) → TextsRegular vs)

/-- The texts of an `open_run`, where the handler comes to them. -/
structure OpenRegular (kvs header : Dict F) : Prop where
  runId : TextRegular (fieldOr "run_id" (.str []) kvs)
  headerTexts : (∃ s, (fieldOr "run_id" (.str []) kvs).pyStr = .ok s) → HeaderRegular header
  rest : (∃ s, (fieldOr "run_id" (.str []) kvs).pyStr = .ok s) →
    (∃ h, ProgramHeader.fromRecord (.dict header) = .ok h) →
    TextsRegular [fieldOr "run_mode" (.str []) kvs, fieldOr "program_digest" (.str []) kvs,
      fieldOr "disconnect_policy" (.str (py "stop_after_timeout")) kvs]

theorem caught_readOpen (kvs header : Dict F) :
    RaisesOnly Raised.Caught (readOpen kvs header) ↔ OpenRegular kvs header := by
  unfold readOpen
  simp only [raisesOnly_bind, caught_pyStr, caught_headerFromRecord, liftBuiltin_eq_ok,
    raisesOnly_ok, implies_true, and_true]
  constructor
  · rintro ⟨hid, h⟩
    refine ⟨hid, ?_, ?_⟩
    · rintro ⟨s, hs⟩
      exact (h s hs).1
    · rintro ⟨s, hs⟩ ⟨g, hg⟩
      obtain ⟨hmode, hrest⟩ := (h s hs).2 g hg
      refine ⟨hmode, ?_⟩
      rintro ⟨m, hm⟩
      refine ⟨(hrest m hm).1, ?_⟩
      rintro ⟨d, hd⟩
      exact ⟨(hrest m hm).2 d hd, fun _ => trivial⟩
  · intro h
    refine ⟨h.runId, fun s hs => ⟨h.headerTexts ⟨s, hs⟩, fun g hg => ?_⟩⟩
    obtain ⟨hmode, hrest⟩ := h.rest ⟨s, hs⟩ ⟨g, hg⟩
    refine ⟨hmode, fun m hm => ?_⟩
    obtain ⟨hdigest, hpolicy⟩ := hrest ⟨m, hm⟩
    exact ⟨hdigest, fun d hd => (hpolicy ⟨d, hd⟩).1⟩

omit [PyFloat F] [PyText F] in
theorem caught_openRun (c : ProgramController F) (request : OpenRequest) :
    RaisesOnly Raised.Caught (c.openRun request) := by
  unfold ProgramController.openRun
  split
  · exact raisesOnly_error.2 trivial
  · exact raisesOnly_error.2 trivial
  · simp [raisesOnly_bind]

omit [PyFloat F] [PyText F] in
theorem caught_start (r : ProgramRun F) : RaisesOnly Raised.Caught r.start := by
  unfold ProgramRun.start
  simp [raisesOnly_bind]

variable [FloatTrunc F] [IntText]

/-- The fields of a chunk, where the handler comes to them. -/
structure ChunkReads (kvs : Dict F) (values : List (Val F)) : Prop where
  points : ∀ before x after, values = before ++ x :: after →
    (∀ y ∈ before, ∃ p, TrajectoryPoint.fromRecord y = .ok p) → PointCaught x
  chunkSeq : (∃ points, values.mapM TrajectoryPoint.fromRecord = .ok points) →
    ∀ e, pyInt (fieldOr "chunk_seq" (.int (-1)) kvs) = .error e →
      e = .typeError ∨ e.isValueError = true
  digest : (∃ points, values.mapM TrajectoryPoint.fromRecord = .ok points) →
    (∃ n, pyInt (fieldOr "chunk_seq" (.int (-1)) kvs) = .ok n) →
    TextRegular (fieldOr "digest" (.str []) kvs)

omit [PyText F] [FloatTrunc F] [IntText] in
theorem caught_points {values : List (Val F)} :
    RaisesOnly Raised.Caught (values.mapM TrajectoryPoint.fromRecord) ↔
      ∀ before x after, values = before ++ x :: after →
        (∀ y ∈ before, ∃ p, TrajectoryPoint.fromRecord y = .ok p) → PointCaught x := by
  constructor
  · intro h before x after hsplit hbefore
    refine caught_fromRecord.1 fun e he => h e ?_
    exact mapM_eq_error.2 ⟨before, x, after, hsplit, hbefore, he⟩
  · intro h e he
    obtain ⟨before, x, after, hsplit, hbefore, hx⟩ := mapM_eq_error.1 he
    exact caught_fromRecord.2 (h before x after hsplit hbefore) e hx

theorem caught_readChunk (kvs : Dict F) (values : List (Val F)) :
    RaisesOnly Raised.Caught (readChunk kvs values) ↔ ChunkReads kvs values := by
  unfold readChunk
  simp only [raisesOnly_bind, caught_points, caught_liftBuiltin, liftBuiltin_eq_ok, raisesOnly_ok,
    implies_true, and_true]
  constructor
  · rintro ⟨hpoints, h⟩
    refine ⟨hpoints, ?_, ?_⟩
    · rintro ⟨ps, hps⟩
      exact (h ps hps).1
    · rintro ⟨ps, hps⟩ ⟨n, hn⟩
      exact (h ps hps).2 n hn
  · intro h
    exact ⟨h.points, fun ps hps => ⟨h.chunkSeq ⟨ps, hps⟩, fun n hn => h.digest ⟨ps, hps⟩ ⟨n, hn⟩⟩⟩

end Raises

/-! ## Appending -/

section Append

variable [PyFloat F]

/-- The time between two points is a number of seconds that can be divided by, if it is long enough
to be looked at. -/
def SafetyPolicy.Timed (policy : SafetyPolicy F) (previous current : TrajectoryPoint F) : Prop :=
  policy.minSegmentUs ≤ current.tUs - previous.tUs →
    ∃ dtS : F, PyFloat.truediv (current.tUs - previous.tUs) 1000000 = .ok dtS ∧
      ∀ x, (∃ v, PyFloat.div x dtS = .ok v) ∧ ∃ a, PyFloat.div x (PyFloat.mul dtS dtS) = .ok a

theorem caught_validateSegment {policy : SafetyPolicy F} {previous current : TrajectoryPoint F}
    (h : policy.Timed previous current) :
    RaisesOnly Raised.Caught (policy.validateSegment previous current) := by
  unfold SafetyPolicy.validateSegment
  rw [raisesOnly_bind_of (raisesOnly_raiseWhen.2 fun _ => trivial)]
  intro _ hmin
  obtain ⟨dtS, hdt, hdiv⟩ := h (not_lt.1 (raiseWhen_eq_ok.1 hmin))
  rw [hdt]
  refine raisesOnly_forM.2 fun _ j _ _ _ => ?_
  obtain ⟨⟨v, hv⟩, -⟩ := hdiv (PyFloat.mul (PyFloat.lit 1.875)
    (PyFloat.abs (PyFloat.sub (current.qDeg j) (previous.qDeg j))))
  obtain ⟨-, ⟨a, ha⟩⟩ := hdiv (PyFloat.mul (PyFloat.lit 5.773503)
    (PyFloat.abs (PyFloat.sub (current.qDeg j) (previous.qDeg j))))
  refine raisesOnly_bind.2 ⟨raisesOnly_of_eq_ok (liftBuiltin_eq_ok.2 hv), fun v _ => ?_⟩
  refine raisesOnly_bind.2 ⟨raisesOnly_of_eq_ok (liftBuiltin_eq_ok.2 ha), fun a _ => ?_⟩
  simp [raisesOnly_bind]

theorem caught_validatePosition (policy : SafetyPolicy F) (p : TrajectoryPoint F)
    (mode : CoordinateMode) : RaisesOnly Raised.Caught (policy.validatePosition p mode) := by
  unfold SafetyPolicy.validatePosition
  refine raisesOnly_forM.2 fun _ j _ _ _ => ?_
  cases mode <;> exact raisesOnly_raiseWhen.2 fun _ => trivial

namespace ProgramRun

variable (r : ProgramRun F)

theorem caught_validateResolved (p : TrajectoryPoint F) :
    RaisesOnly Raised.Caught (r.validateResolvedPosition p) := by
  unfold validateResolvedPosition
  split
  · exact raisesOnly_forM.2 fun _ j _ _ _ => raisesOnly_raiseWhen.2 fun _ => trivial
  · exact raisesOnly_ok _

theorem caught_validateFirst (p : TrajectoryPoint F) :
    RaisesOnly Raised.Caught (r.validateFirst p) := by
  unfold validateFirst
  simp [raisesOnly_bind]

theorem validatePoints_cons (previous : Option (TrajectoryPoint F)) (p : TrajectoryPoint F)
    (points : List (TrajectoryPoint F)) : r.validatePoints previous (p :: points) =
      ((match previous with
        | none => r.validateFirst p
        | some previous => r.policy.validateSegment previous p) >>= fun _ =>
      r.policy.validatePosition p r.header.coordinateMode >>= fun _ =>
      r.validateResolvedPosition p >>= fun _ => r.validatePoints (some p) points) := by
  cases previous <;> rfl

/-- The loop over the points, where it comes to them. -/
theorem caught_validatePoints {previous : Option (TrajectoryPoint F)}
    {points : List (TrajectoryPoint F)}
    (h : ∀ before p after, points = before ++ p :: after →
      r.validatePoints previous before = .ok () →
      ∀ q ∈ before.getLast?.or previous, r.policy.Timed q p) :
    RaisesOnly Raised.Caught (r.validatePoints previous points) := by
  induction points generalizing previous with
  | nil => exact raisesOnly_ok _
  | cons p points ih =>
    rw [validatePoints_cons]
    have hfirst : RaisesOnly Raised.Caught (match previous with
        | none => r.validateFirst p
        | some previous => r.policy.validateSegment previous p) := by
      cases previous with
      | none => exact r.caught_validateFirst p
      | some q => exact caught_validateSegment (h [] p points rfl rfl q rfl)
    refine raisesOnly_bind.2 ⟨hfirst, fun _ hok => ?_⟩
    refine raisesOnly_bind.2 ⟨caught_validatePosition _ _ _, fun _ hposition => ?_⟩
    refine raisesOnly_bind.2 ⟨r.caught_validateResolved p, fun _ hresolved => ?_⟩
    refine ih fun before q after hsplit hbefore x hx => ?_
    refine h (p :: before) q after (by rw [hsplit]; rfl) ?_ x ?_
    · rw [validatePoints_cons]
      exact bind_eq_ok.2 ⟨_, hok, bind_eq_ok.2 ⟨_, hposition, bind_eq_ok.2 ⟨_, hresolved, hbefore⟩⟩⟩
    · cases before with
      | nil => exact hx
      | cons y before =>
        rw [List.getLast?_cons, Option.some_or] at hx
        rw [List.getLast?_cons_cons, List.getLast?_cons, Option.some_or]
        exact hx

variable [FloatRepr F] [Sha256]

/-- The chunk passes every check before the loop over its points. -/
structure ReachesPoints (c : Chunk F) : Prop where
  new : r.NewChunk c
  seq : c.chunkSeq = r.expectedChunkSeq
  state : r.state = .buffering ∨ r.state = .running
  not_final : r.finalReceived = false
  size : c.points ≠ [] ∧ c.points.length ≤ r.policy.maxChunkPoints

/-- The times of the chunk can be divided by, and its program can be compared, where `append_chunk`
comes to this. -/
structure AppendRegular (c : Chunk F) : Prop where
  timed : r.ReachesPoints c → ∀ before p after, c.points = before ++ p :: after →
    r.validatePoints r.points.getLast? before = .ok () →
    ∀ q ∈ before.getLast?.or r.points.getLast?, r.policy.Timed q p
  comparable : r.ReachesDigest c → r.Comparable

omit [PyFloat F] [FloatRepr F] [Sha256] in
theorem compareDigest_raises {a b : Str} {e : Exc} (h : compareDigest a b = .error e) :
    e = .typeError := by
  unfold compareDigest at h
  split_ifs at h
  cases h
  rfl

theorem caught_validateChunk {c : Chunk F} (h : r.AppendRegular c) (hnew : r.NewChunk c) :
    RaisesOnly Raised.Caught (r.validateChunk c) := by
  unfold validateChunk
  refine raisesOnly_bind.2 ⟨raisesOnly_raiseWhen.2 fun _ => trivial, fun _ hseq => ?_⟩
  refine raisesOnly_bind.2 ⟨raisesOnly_raiseWhen.2 fun _ => trivial, fun _ hstate => ?_⟩
  refine raisesOnly_bind.2 ⟨raisesOnly_raiseWhen.2 fun _ => trivial, fun _ hsize => ?_⟩
  simp only [raiseWhen_eq_ok, not_or, not_not, not_lt, Bool.not_eq_true] at hseq hstate hsize
  have hreach : r.ReachesPoints c :=
    ⟨hnew, hseq, or_iff_not_imp_left.2 fun hs => by tauto, hstate.2, hsize⟩
  refine raisesOnly_bind.2 ⟨r.caught_validatePoints fun before p after hsplit hbefore =>
    h.timed hreach before p after hsplit hbefore, fun _ _ => ?_⟩
  simp [raisesOnly_bind]

theorem caught_appendNew {c : Chunk F} (h : r.AppendRegular c) (hnew : r.NewChunk c)
    {digest : Str} {e : Raised F} (he : (r.appendNew digest c).1 = .error e) : e.Caught := by
  unfold appendNew at he
  cases hvalid : r.validateChunk c with
  | error e' =>
    simp only [hvalid] at he
    cases he
    exact r.caught_validateChunk h hnew _ hvalid
  | ok u =>
    simp only [hvalid] at he
    split_ifs at he with hfinal
    · have hcomparable := h.comparable ⟨hfinal, hnew, validateChunk_eq_ok.1 hvalid⟩
      obtain ⟨same, hsame⟩ := (digestMatches_isOk (r.extend c)).2 hcomparable
      simp only [hsame] at he
      cases same with
      | false =>
        cases he
        trivial
      | true => cases he
    · cases he

/-- A regular chunk is refused with an exception that is caught, and the buffer stays as it was. -/
theorem caught_appendChunk {c : Chunk F} (h : r.AppendRegular c) {e : Raised F}
    (he : (r.appendChunk c).1 = .error e) : e.Caught ∧ r.SameBuffer (r.appendChunk c).2 := by
  refine ⟨?_, (append_unchanged_iff r c).2 h.comparable e he⟩
  obtain ⟨digest, hdigest⟩ := exists_chunkDigest (F := F) c.chunkSeq c.points c.final
  unfold appendChunk at he
  rw [hdigest] at he
  cases hsupplied : compareDigest c.digest digest with
  | error exc =>
    simp only [hsupplied] at he
    cases he
    exact .inl (compareDigest_raises hsupplied)
  | ok same =>
    cases same with
    | false =>
      simp only [hsupplied] at he
      cases he
      trivial
    | true =>
      simp only [hsupplied] at he
      cases hold : r.chunkReceipts.get c.chunkSeq with
      | some old =>
        simp only [hold] at he
        cases hcompare : compareDigest old.1 digest with
        | error exc =>
          simp only [hcompare] at he
          cases he
          exact .inl (compareDigest_raises hcompare)
        | ok same =>
          simp only [hcompare] at he
          cases same with
          | false =>
            cases he
            trivial
          | true => cases he
      | none =>
        simp only [hold] at he
        exact r.caught_appendNew h ⟨⟨digest, hdigest, hsupplied⟩, hold⟩ he

end ProgramRun

end Append

/-! ## Messages -/

section Serve

variable [PyFloat F] [PyText F] [FloatTrunc F] [IntText] [FloatRepr F] [Sha256]

namespace ProgramController

variable {c : ProgramController F} {i : ℕ} {now : F} {kvs : Dict F} {e : Raised F}

/-- What a message of each kind has to meet, in the state it finds. -/
structure MessageRegular (c : ProgramController F) (i : ℕ) (kvs : Dict F) (kind : Str) : Prop where
  openRun : kind = py "open_run" → (c.connections i).run = none →
    ∀ header, field "header" kvs = .dict header → OpenRegular kvs header
  chunk : kind = py "chunk" → ∀ j run, c.runOf i = some (j, run) →
    ∀ values, field "points" kvs = .list values → ChunkReads kvs values ∧
      ∀ chunk, readChunk kvs values = .ok chunk → run.AppendRegular chunk
  cancel : kind = py "cancel" → ∀ j run, c.runOf i = some (j, run) →
    TextRegular (fieldOr "reason" (.str (py "client cancel")) kvs)

/-- The connections are the same, and every run has the same buffer. -/
def Keeps (c c' : ProgramController F) : Prop :=
  c'.connections = c.connections ∧ ∀ (j : ℕ) (run : ProgramRun F), c.runs[j]? = some run →
    ∃ run', c'.runs[j]? = some run' ∧ run.SameBuffer run'

omit [PyFloat F] [PyText F] [FloatTrunc F] [IntText] [FloatRepr F] [Sha256] in
theorem Keeps.refl (c : ProgramController F) : c.Keeps c :=
  ⟨rfl, fun _ run hrun => ⟨run, hrun, rfl, rfl, rfl, rfl⟩⟩

omit [PyFloat F] [PyText F] [FloatTrunc F] [IntText] [FloatRepr F] [Sha256] in
theorem runs_of_runOf {j : ℕ} {run : ProgramRun F} (h : c.runOf i = some (j, run)) :
    (c.connections i).run = some j ∧ c.runs[j]? = some run := by
  unfold runOf at h
  obtain ⟨j', hj, h⟩ := Option.bind_eq_some_iff.1 h
  obtain ⟨run', hrun, h⟩ := Option.map_eq_some_iff.1 h
  cases h
  exact ⟨hj, hrun⟩

omit [PyFloat F] [PyText F] [FloatTrunc F] [IntText] [FloatRepr F] [Sha256] in
theorem Keeps.setRun {j : ℕ} {run run' : ProgramRun F} (hrun : c.runs[j]? = some run)
    (h : run.SameBuffer run') : c.Keeps (c.setRun j run') := by
  obtain ⟨hlt, -⟩ := List.getElem?_eq_some_iff.1 hrun
  refine ⟨rfl, fun k run₀ hk => ?_⟩
  show ∃ run'', (c.runs.set j run')[k]? = some run'' ∧ _
  by_cases hjk : j = k
  · subst hjk
    rw [hrun] at hk
    cases hk
    exact ⟨run', List.getElem?_set_self hlt, h⟩
  · rw [List.getElem?_set_ne hjk]
    exact ⟨run₀, hk, rfl, rfl, rfl, rfl⟩

omit [FloatTrunc F] [IntText] [FloatRepr F] [Sha256] in
theorem onOpen_error (h : (c.connections i).run = none →
      ∀ header, field "header" kvs = .dict header → OpenRegular kvs header)
    (he : (c.onOpen i now kvs).1 = .error e) : e.Caught ∧ (c.onOpen i now kvs).2 = c := by
  unfold onOpen at he ⊢
  cases hrun : (c.connections i).run with
  | some j =>
    simp only [hrun] at he
    cases he
    exact ⟨trivial, rfl⟩
  | none =>
    simp only [hrun] at he ⊢
    cases hheader : field "header" kvs with
    | dict header =>
      simp only [hheader] at he ⊢
      cases hread : readOpen kvs header with
      | error e' =>
        simp only [hread] at he ⊢
        cases he
        exact ⟨(caught_readOpen kvs header).2 (h hrun header hheader) _ hread, trivial⟩
      | ok request =>
        simp only [hread] at he ⊢
        cases hopen : c.openRun request with
        | error e' =>
          simp only [hopen] at he ⊢
          cases he
          exact ⟨caught_openRun c request _ hopen, trivial⟩
        | ok cfg =>
          simp only [hopen] at he
          cases he
    | _ =>
      simp only [hheader] at he ⊢
      cases he
      exact ⟨trivial, trivial⟩

omit [PyFloat F] [PyText F] [FloatTrunc F] [IntText] [FloatRepr F] [Sha256] in
theorem onStart_error (he : (c.onStart i).1 = .error e) : e.Caught ∧ (c.onStart i).2 = c := by
  unfold onStart at he ⊢
  split
  · rename_i hrun
    simp only [hrun] at he
    cases he
    exact ⟨trivial, rfl⟩
  · rename_i j run hrun
    simp only [hrun] at he
    cases hstart : run.start with
    | error e' =>
      simp only [hstart] at he
      cases he
      exact ⟨caught_start run _ hstart, rfl⟩
    | ok run' =>
      simp only [hstart] at he
      cases he

omit [PyFloat F] [FloatTrunc F] [IntText] [FloatRepr F] [Sha256] in
theorem onCancel_error (h : ∀ j run, c.runOf i = some (j, run) →
      TextRegular (fieldOr "reason" (.str (py "client cancel")) kvs))
    (he : (c.onCancel i kvs).1 = .error e) : e.Caught ∧ (c.onCancel i kvs).2 = c := by
  unfold onCancel at he ⊢
  split
  · rename_i hrun
    simp only [hrun] at he
    cases he
    exact ⟨trivial, rfl⟩
  · rename_i j run hrun
    simp only [hrun] at he
    cases htext : (fieldOr "reason" (.str (py "client cancel")) kvs).pyStr with
    | error exc =>
      simp only [htext] at he
      cases he
      exact ⟨h j run hrun exc htext, rfl⟩
    | ok reason =>
      simp only [htext] at he
      cases he

theorem onChunk_error (h : ∀ j run, c.runOf i = some (j, run) →
      ∀ values, field "points" kvs = .list values → ChunkReads kvs values ∧
        ∀ chunk, readChunk kvs values = .ok chunk → run.AppendRegular chunk)
    (he : (c.onChunk i kvs).1 = .error e) : e.Caught ∧ c.Keeps (c.onChunk i kvs).2 := by
  unfold onChunk at he ⊢
  cases hrun : c.runOf i with
  | none =>
    simp only [hrun] at he ⊢
    cases he
    exact ⟨trivial, .refl c⟩
  | some jr =>
    obtain ⟨j, run⟩ := jr
    simp only [hrun] at he ⊢
    cases hpoints : field "points" kvs with
    | list values =>
      obtain ⟨hreads, happend⟩ := h j run hrun values hpoints
      simp only [hpoints] at he ⊢
      cases hread : readChunk kvs values with
      | error e' =>
        simp only [hread] at he ⊢
        cases he
        exact ⟨(caught_readChunk kvs values).2 hreads _ hread, .refl c⟩
      | ok chunk =>
        have hcaught : ∀ e' : Raised F, (run.appendChunk chunk).1 = .error e' →
            e'.Caught ∧ run.SameBuffer (run.appendChunk chunk).2 :=
          fun _ => run.caught_appendChunk (happend chunk hread)
        simp only [hread] at he ⊢
        generalize run.appendChunk chunk = x at he hcaught ⊢
        obtain ⟨result, run'⟩ := x
        cases result with
        | error e' =>
          cases he
          obtain ⟨hkind, hsame⟩ := hcaught _ rfl
          exact ⟨hkind, .setRun (runs_of_runOf hrun).2 hsame⟩
        | ok receipt => cases he
    | _ =>
      simp only [hpoints] at he ⊢
      cases he
      exact ⟨trivial, .refl c⟩

/-- A property of what each branch gives holds of the answer. -/
theorem dispatch_induction {P : Except (Raised F) (Reply F) × ProgramController F → Prop}
    {kind : Str} (hopen : kind = py "open_run" → P (c.onOpen i now kvs))
    (hchunk : kind = py "chunk" → P (c.onChunk i kvs)) (hstart : P (c.onStart i))
    (hheartbeat : P (c.onHeartbeat i now)) (hreply : ∀ reply, P (.ok reply, c))
    (hcancel : kind = py "cancel" → P (c.onCancel i kvs)) (hstop : P c.onEmergencyStop)
    (hunknown : ∀ code text args, P (.error (protocolError code text args []), c)) :
    P (c.dispatch i now kvs kind) := by
  unfold dispatch
  split_ifs with h₁ h₂ h₃ h₄ h₅ h₆ h₇
  · exact hopen h₁
  · exact hchunk h₂
  · exact hstart
  · exact hheartbeat
  · exact hreply _
  · exact hcancel h₆
  · exact hstop
  · exact hunknown _ _ _

/-- A regular message is answered, or refused with an exception that is caught and with every buffer
as it was. -/
theorem answer_error {message : Val F}
    (h : ∀ kvs kind, decodeMessage message = some (kvs, kind) → c.MessageRegular i kvs kind)
    (he : (c.answer i now message).1 = .error e) :
    e.Caught ∧ c.Keeps (c.answer i now message).2 := by
  have hkeep : ∀ {x : Except (Raised F) (Reply F) × ProgramController F},
      e.Caught ∧ x.2 = c → e.Caught ∧ c.Keeps x.2 := fun ⟨hcaught, hsame⟩ =>
    ⟨hcaught, hsame ▸ .refl c⟩
  unfold answer at he ⊢
  cases hdecode : decodeMessage message with
  | none =>
    simp only [hdecode] at he ⊢
    cases he
    exact ⟨trivial, .refl c⟩
  | some p =>
    obtain ⟨kvs, kind⟩ := p
    have hregular := h kvs kind hdecode
    simp only [hdecode] at he ⊢
    revert he
    refine dispatch_induction (P := fun x => x.1 = .error e → e.Caught ∧ c.Keeps x.2)
      (fun hkind he => ?_) (fun hkind he => ?_) (fun he => hkeep (onStart_error he)) (fun he => ?_)
      (fun _ he => by cases he) (fun hkind he => ?_) (fun he => ?_) fun _ _ _ he => ?_
    · exact hkeep (onOpen_error (hregular.openRun hkind) he)
    · exact onChunk_error (hregular.chunk hkind) he
    · unfold onHeartbeat at he
      split at he <;> cases he
    · exact hkeep (onCancel_error (hregular.cancel hkind) he)
    · unfold onEmergencyStop at he
      dsimp only at he
      split at he <;> cases he
    · cases he
      exact ⟨trivial, .refl c⟩

omit [PyFloat F] [PyText F] [FloatTrunc F] [IntText] [FloatRepr F] [Sha256] in
/-- The same connections are closed. -/
def SameClosed (c c' : ProgramController F) : Prop :=
  ∀ k, (c'.connections k).closed = (c.connections k).closed

omit [PyText F] [IntText] [FloatTrunc F] [FloatRepr F] [Sha256] [PyFloat F] in
theorem sameClosed_create (c : ProgramController F) (i : ℕ) (cfg : RunConfig F) (now : F) :
    c.SameClosed (c.create i cfg now) := by
  intro k
  show (Function.update c.connections i _ k).closed = _
  by_cases hk : k = i
  · subst hk
    rw [Function.update_self]
  · rw [Function.update_of_ne hk]

theorem answer_closed (c : ProgramController F) (i : ℕ) (now : F) (message : Val F) :
    c.SameClosed (c.answer i now message).2 := by
  have hrefl : c.SameClosed c := fun _ => rfl
  unfold answer
  split
  · exact hrefl
  · refine dispatch_induction (P := fun x => c.SameClosed x.2) (fun _ => ?_) (fun _ => ?_) ?_ ?_
      (fun _ => hrefl) (fun _ => ?_) ?_ fun _ _ _ => hrefl
    · unfold onOpen
      split
      · exact hrefl
      · split
        · split
          · exact hrefl
          · split
            · exact hrefl
            · exact sameClosed_create c i _ now
        · exact hrefl
    · unfold onChunk
      split
      · exact hrefl
      · split
        · split
          · exact hrefl
          · split <;> exact hrefl
        · exact hrefl
    · unfold onStart
      split
      · exact hrefl
      · split <;> exact hrefl
    · unfold onHeartbeat
      split <;> exact hrefl
    · unfold onCancel
      split
      · exact hrefl
      · split <;> exact hrefl
    · unfold onEmergencyStop
      dsimp only
      split <;> exact hrefl

end ProgramController

namespace Server

variable {s s' : Server F} {i : ℕ}

/-- The step is no message that reaches an exception the session does not catch, or the comparison
of a program whose digest cannot be compared. -/
def Regular (s : Server F) : Label F → Prop
  | .receive i message _ => ∀ kvs kind, decodeMessage message = some (kvs, kind) →
      s.MessageRegular i kvs kind
  | _ => True

/-- A message gets one reply, behind what is in the queue, and the session goes on; behind an error
the connection's run has the points, the chunk sequence and the final flag it had. -/
def Served (s : Server F) : Label F → Prop
  | .receive i message now => ∀ s', s.step (.receive i message now) = some s' →
      (∃ reply, s'.outgoing i = s.outgoing i ++ [Queued.reply reply] ∧
        ∀ e, reply = .error e → (s'.connections i).run = (s.connections i).run ∧
          ∀ j run, (s.connections i).run = some j → s.runs[j]? = some run →
            ∃ run', s'.runs[j]? = some run' ∧ run.SameBuffer run') ∧
      (∀ k, k ≠ i → s'.outgoing k = s.outgoing k) ∧ (s'.connections i).closed = false
  | _ => True

/-- The replies in a queue. -/
def replies (s : Server F) (i : ℕ) : List (Except (Raised F) (Reply F)) :=
  (s.outgoing i).filterMap Queued.reply?

/-- The messages a connection received along the steps. -/
def received (i : ℕ) (ls : List (Label F)) : List (Val F) := ls.filterMap fun
  | .receive k message _ => if k = i then some message else none
  | _ => none

/-- What a regular message leads to. -/
theorem serve_regular {now : F} {message : Val F}
    (h : s.Regular (.receive i message now)) : ∃ reply,
      (s.serve i now message).outgoing =
        Function.update s.outgoing i (s.outgoing i ++ [Queued.reply reply]) ∧
      s.SameClosed (s.serve i now message).toProgramController ∧
      ∀ e, reply = .error e → s.Keeps (s.serve i now message).toProgramController := by
  have hclosed := s.toProgramController.answer_closed i now message
  have herror : ∀ e, (s.toProgramController.answer i now message).1 = .error e →
      e.Caught ∧ s.Keeps (s.toProgramController.answer i now message).2 :=
    fun _ => ProgramController.answer_error h
  unfold serve
  generalize s.toProgramController.answer i now message = x at hclosed herror ⊢
  obtain ⟨result, c⟩ := x
  cases result with
  | ok reply =>
    exact ⟨.ok reply, rfl, hclosed, nofun⟩
  | error e =>
    obtain ⟨hcaught, hkeeps⟩ := herror e rfl
    simp only
    rw [if_pos hcaught]
    exact ⟨.error e, rfl, hclosed, fun _ _ => hkeeps⟩

theorem Regular.served {label : Label F} (h : s.Regular label) : s.Served label := by
  cases label with
  | receive i message now =>
    intro s' hs
    obtain ⟨reply, hqueue, hclosed, herror⟩ := serve_regular h
    have hs : (if (s.connections i).closed = true then none else some (s.serve i now message)) =
        some s' := hs
    split_ifs at hs with hopen
    cases hs
    refine ⟨⟨reply, ?_, fun e he => ?_⟩, fun k hk => ?_, ?_⟩
    · rw [hqueue, Function.update_self]
    · obtain ⟨hconnections, hruns⟩ := herror e he
      exact ⟨by rw [hconnections], fun j run _ hrun => hruns j run hrun⟩
    · rw [hqueue, Function.update_of_ne hk]
    · rw [hclosed i]
      exact Bool.not_eq_true _ ▸ hopen
  | _ => trivial

omit [PyFloat F] [PyText F] [FloatTrunc F] [IntText] [FloatRepr F] [Sha256] in
theorem leave_closed {k : ℕ} (h : k ≠ i) :
    ((s.leave i).connections k).closed = (s.connections k).closed := by
  unfold leave
  cases s.runOf i <;> exact congrArg Connection.closed (Function.update_of_ne h _ _)

/-- What a regular step does to the queue of a connection and to its end. -/
theorem Regular.step {label : Label F} (h : s.Regular label) (hs : s.step label = some s') (i : ℕ) :
    (s'.replies i).length = (s.replies i).length + (received i [label]).length ∧
    ((s'.connections i).closed = true → (s.connections i).closed = true ∨ label = .disconnect i) := by
  cases label with
  | receive k message now =>
    obtain ⟨⟨reply, hqueue, -⟩, hother, hopen⟩ := h.served s' hs
    obtain ⟨-, -, hclosed, -⟩ := serve_regular h
    have hs : (if (s.connections k).closed = true then none else some (s.serve k now message)) =
        some s' := hs
    split_ifs at hs
    cases hs
    refine ⟨?_, fun hi => .inl ((hclosed i).symm.trans hi)⟩
    unfold replies received
    by_cases hik : i = k
    · subst hik
      rw [hqueue, List.filterMap_append, List.length_append]
      simp [Queued.reply?]
    · rw [hother i hik]
      simp [Ne.symm hik]
  | emitted k event =>
    cases hs
    refine ⟨?_, .inl⟩
    unfold replies
    show ((Function.update s.outgoing k _ i).filterMap _).length = _
    by_cases hik : i = k
    · subst hik
      rw [Function.update_self, List.filterMap_append]
      simp [Queued.reply?, received]
    · rw [Function.update_of_ne hik]
      simp [received]
  | disconnect k =>
    have hs : (if (s.connections k).closed = true then none else some (s.leave k)) = some s' := hs
    split_ifs at hs
    cases hs
    refine ⟨rfl, fun hi => ?_⟩
    by_cases hik : i = k
    · exact .inr (by rw [hik])
    · exact .inl ((leave_closed hik).symm.trans hi)
  | shutdown =>
    have hs : (match s.activeRun with
      | none => some s
      | some (j, run) => some { s with
          toProgramController := s.setRun j (run.requestStop (py "server shutdown")) }) =
        some s' := hs
    split at hs <;> cases hs <;> exact ⟨rfl, .inl⟩
  | exec j act =>
    obtain ⟨run, -, hs⟩ := Option.bind_eq_some_iff.1 hs
    obtain ⟨run', -, hs⟩ := Option.bind_eq_some_iff.1 hs
    cases hs
    exact ⟨rfl, .inl⟩

omit [PyFloat F] [PyText F] [FloatTrunc F] [IntText] [FloatRepr F] [Sha256] in
theorem received_cons (i : ℕ) (l : Label F) (ls : List (Label F)) :
    received i (l :: ls) = received i [l] ++ received i ls := by
  unfold received
  rw [← List.filterMap_append, List.singleton_append]

/-- Along every run of regular steps each message is served, the replies of a connection are as
many as its messages, and a session ends by its client only. -/
theorem connection_serves (settings : Settings F) (ls : List (Label F)) (s : Server F)
    (hrun : Transition.run step (init settings) ls = some s)
    (hregular : Transition.Along step Regular (init settings) ls) :
    Transition.Along step Served (init settings) ls ∧
    ∀ i, (s.replies i).length = (received i ls).length ∧
      ((s.connections i).closed = true → .disconnect i ∈ ls) := by
  refine ⟨hregular.mono fun _ _ h => h.served, fun i => ?_⟩
  have hgeneral : ∀ ls s₀, Transition.run step s₀ ls = some s → Transition.Along step Regular s₀ ls →
      (s.replies i).length = (s₀.replies i).length + (received i ls).length ∧
      ((s.connections i).closed = true → (s₀.connections i).closed = true ∨ .disconnect i ∈ ls) := by
    intro ls
    induction ls with
    | nil =>
      intro s₀ hrun _
      cases hrun
      exact ⟨rfl, .inl⟩
    | cons l ls ih =>
      intro s₀ hrun hregular
      obtain ⟨m, hm, hrest⟩ := Transition.run_cons_eq_some.1 hrun
      obtain ⟨hlen, hclosed⟩ := hregular.1.step hm i
      obtain ⟨hlen', hclosed'⟩ := ih m hrest (hregular.2 m hm)
      constructor
      · rw [hlen', hlen, received_cons i l ls, List.length_append, Nat.add_assoc]
      · intro hs
        rcases hclosed' hs with hm | hmem
        · rcases hclosed hm with h₀ | rfl
          · exact .inl h₀
          · exact .inr List.mem_cons_self
        · exact .inr (List.mem_cons_of_mem l hmem)
  obtain ⟨hlen, hclosed⟩ := hgeneral ls (init settings) hrun hregular
  refine ⟨hlen.trans ?_, fun hs => (hclosed hs).resolve_left nofun⟩
  show 0 + _ = _
  rw [Nat.zero_add]

end Server

end Serve

/-! ### Two sessions -/

section Demo

local instance sessionHash : Sha256 := lengthHash

/-- Plain numerals. -/
local instance sessionInt : IntText where
  ofStr s := (digits s).map fun r => (r.1 : ℤ)
  ofBytes b := (digits (b.map UInt8.toNat)).map fun r => (r.1 : ℤ)

open Server

def sessionSettings : Settings ℚ where
  policy := .default
  controlHz := 20
  telemetryHz := 5
  heartbeatTimeoutS := 3
  holdAfterRunS := 0

/-- An `open_run` of the demo program. -/
def openMessage : Val ℚ :=
  dictOf [("type", .str (py "open_run")), ("run_id", .str (py "r")),
    ("header", (demoHeader.record : Val ℚ)), ("run_mode", .str (py "sealed")),
    ("program_digest", .str (List.replicate 64 48))]

/-- A chunk with these point values and an empty digest. -/
def chunkMessage (values : List (Val ℚ)) : Val ℚ :=
  dictOf [("type", .str (py "chunk")), ("chunk_seq", .int 0), ("points", .list values)]

/-- A run is opened, a chunk with a wrong digest is refused, and the session goes on. -/
def refusedSession : List (Server.Label ℚ) :=
  [.receive 0 openMessage 0, .receive 0 (chunkMessage (demoPoints.map TrajectoryPoint.record)) 0,
    .receive 0 (dictOf [("type", .str (py "heartbeat"))]) 1]

/-- The same with a point that is the array of the names of its fields. -/
def endedSession : List (Server.Label ℚ) :=
  [.receive 0 openMessage 0, .receive 0 (chunkMessage [namesRecord]) 0]

/-- Exact arithmetic divides by every time. -/
theorem timed_of_pos {policy : SafetyPolicy ℚ} (h : 0 < policy.minSegmentUs)
    (p q : TrajectoryPoint ℚ) : policy.Timed p q := by
  intro hmin
  have hdt : ((q.tUs - p.tUs : ℤ) : ℚ) / ((1000000 : ℤ) : ℚ) ≠ 0 := by
    refine div_ne_zero (Int.cast_ne_zero.2 ?_) (by norm_num)
    omega
  refine ⟨_, if_neg (by norm_num), fun x => ⟨⟨_, if_neg hdt⟩, ⟨_, if_neg ?_⟩⟩⟩
  exact mul_ne_zero hdt hdt

theorem regular_openMessage (s : Server ℚ) (i : ℕ) (now : ℚ) :
    s.Regular (.receive i openMessage now) := by
  intro kvs kind hdecode
  have hread : ∃ header, field "header" kvs = .dict header ∧ (readOpen kvs header).isOk = true := by
    cases hdecode
    exact ⟨_, rfl, by decide +kernel⟩
  refine ⟨fun _ _ header hheader => ?_, fun h => ?_, fun h => ?_⟩
  · obtain ⟨header', hheader', hread⟩ := hread
    cases hheader.symm.trans hheader'
    obtain ⟨request, hrequest⟩ := exists_of_isOk hread
    exact (caught_readOpen kvs header).1 (raisesOnly_of_eq_ok hrequest)
  · cases hdecode
    exact absurd h (by decide)
  · cases hdecode
    exact absurd h (by decide)

/-- A chunk that can be read and is not the last is regular in exact arithmetic. -/
theorem regular_chunkMessage {s : Server ℚ} {i : ℕ} {now : ℚ} {values : List (Val ℚ)}
    (hread : ∀ kvs, chunkMessage values = .dict kvs → (readChunk kvs values).isOk = true)
    (hpolicy : ∀ j run, s.runOf i = some (j, run) → 0 < run.policy.minSegmentUs) :
    s.Regular (.receive i (chunkMessage values) now) := by
  intro kvs kind hdecode
  cases hdecode
  refine ⟨fun h => absurd h (by decide), fun _ j run hrun values' hvalues => ?_,
    fun h => absurd h (by decide)⟩
  have hsame : field "points" (entries [("type", .str (py "chunk")), ("chunk_seq", .int 0),
    ("points", .list values)]) = Val.list values := rfl
  cases hsame.symm.trans hvalues
  obtain ⟨chunk, hchunk⟩ := exists_of_isOk (hread _ rfl)
  refine ⟨(caught_readChunk _ _).1 (raisesOnly_of_eq_ok hchunk), fun chunk' hchunk' => ?_⟩
  refine ⟨fun _ _ p _ _ _ q _ => timed_of_pos (hpolicy j run hrun) q p, fun hreach => ?_⟩
  have hfinal := hreach.1
  unfold readChunk at hchunk'
  obtain ⟨_, -, hchunk'⟩ := bind_eq_ok.1 hchunk'
  obtain ⟨_, -, hchunk'⟩ := bind_eq_ok.1 hchunk'
  obtain ⟨_, -, hchunk'⟩ := bind_eq_ok.1 hchunk'
  cases hchunk'
  cases hfinal

theorem regular_heartbeat (s : Server ℚ) (i : ℕ) (now : ℚ) :
    s.Regular (.receive i (dictOf [("type", .str (py "heartbeat"))]) now) := by
  intro kvs kind hdecode
  cases hdecode
  exact ⟨fun h => absurd h (by decide), fun h => absurd h (by decide),
    fun h => absurd h (by decide)⟩

theorem connection_serves_refused :
    ∃ s, Transition.run step (Server.init sessionSettings) refusedSession = some s ∧
      (s.replies 0).length = (received 0 refusedSession).length ∧
      (s.connections 0).closed = false := by
  have hrun : (Transition.run step (Server.init sessionSettings) refusedSession).isSome = true := by
    decide +kernel
  obtain ⟨s, hs⟩ := Option.isSome_iff_exists.1 hrun
  have hregular : Transition.Along step Regular (Server.init sessionSettings) refusedSession := by
    refine ⟨regular_openMessage _ _ _, fun s₁ hs₁ => ⟨regular_chunkMessage ?_ ?_,
      fun s₂ _ => ⟨regular_heartbeat _ _ _, fun _ _ => trivial⟩⟩⟩
    · intro kvs hkvs
      cases hkvs
      decide +kernel
    · intro j run hj
      have hpolicy : ((step (Server.init sessionSettings) (.receive 0 openMessage 0)).bind
          fun s => (s.runOf 0).map fun r => r.2.policy.minSegmentUs) = some 100000 := by
        decide +kernel
      rw [hs₁] at hpolicy
      simp only [Option.bind_some, hj, Option.map_some, Option.some.injEq] at hpolicy
      omega
  obtain ⟨-, hserves⟩ := connection_serves sessionSettings refusedSession s hs hregular
  obtain ⟨hlen, hclosed⟩ := hserves 0
  refine ⟨s, hs, hlen, Bool.not_eq_true _ ▸ fun h => ?_⟩
  have hmem := hclosed h
  simp [refusedSession] at hmem

theorem connection_serves_counterexample :
    ∃ s, Transition.run step (Server.init sessionSettings) endedSession = some s ∧
      (received 0 endedSession).length = 2 ∧ (s.replies 0).length = 1 ∧
      (s.connections 0).closed = true := by
  have hrun : ((Transition.run step (Server.init sessionSettings) endedSession).map fun s =>
      ((s.replies 0).length, (s.connections 0).closed)) = some (1, true) := by decide +kernel
  obtain ⟨s, hs, hview⟩ := Option.map_eq_some_iff.1 hrun
  obtain ⟨hlen, hclosed⟩ := Prod.mk.inj hview
  exact ⟨s, hs, rfl, hlen, hclosed⟩

end Demo

end RemoteRobot.Stream
