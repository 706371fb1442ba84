import RemoteRobot.Worker.Subprocess
import RemoteRobot.Worker.Tasks

/-!
# The worker process

`worker_process.py`: the loop of `serve` with `_dispatch`, and `_pump_events`, around the simulator,
which is the `System` of one `InMemoryWorker`.  `Link` puts it behind the pipes of a
`SubprocessWorker` whose caller makes one call at a time; the pipes hold whole frames.
-/

namespace RemoteRobot.Worker

open Py Except

open Ipc (ErrorRecord WireMessage encodeFrame eventEnvelope responseEnvelope
  validateWireMessage)

variable {F : Type}

/-! ## Requests -/

/-- `METHODS` -/
def methods : List Str :=
  [py "prepare_disabled", py "prepare_phase", py "start_phase", py "stop", py "state", py "close"]

/-- The method of the request a `SubprocessWorker` makes of the call. -/
def Call.method : Call F → Str
  | .prepareDisabled => py "prepare_disabled"
  | .preparePhase _ => py "prepare_phase"
  | .startPhase _ => py "start_phase"
  | .stop _ => py "stop"
  | .state => py "state"
  | .close => py "close"

def Call.params : Call F → Dict F
  | .preparePhase phasePlan => entries [("phase_plan", phasePlan)]
  | .startPhase deadlineUs => entries [("monotonic_deadline_us", deadlineUs)]
  | .stop faultContext => entries [("fault_context", faultContext)]
  | .prepareDisabled | .state | .close => []

def Call.isClose : Call F → Bool
  | .close => true
  | _ => false

section Dispatch

variable [PyFloat F]

/-- `_require_params` -/
def requireParams (params : Dict F) (required : List String) : Except (WorkerError F) Unit :=
  let keys := params.map Prod.fst
  let missing := required.filter fun k => !hasStr k keys
  let extra := keys.filter fun k => !required.any fun r => Key.eq (.str (py r)) k
  raiseWhen (missing ≠ [] ∨ extra.isEmpty = false)
    (schemaError "invalid params; missing=%, extra=%"
      [strList (sortedSet (missing.map py)), .list (extra.map Key.toVal)])

/-- `_dispatch` up to the call of the worker. -/
def dispatch (method : Str) (params : Dict F) : Except (WorkerError F) (Call F) :=
  if method = py "prepare_disabled" then do
    requireParams params []
    .ok .prepareDisabled
  else if method = py "prepare_phase" then do
    requireParams params ["phase_plan"]
    match field "phase_plan" params with
    | .dict plan => .ok (.preparePhase (.dict plan))
    | _ => .error (schemaError "phase_plan must be a mapping")
  else if method = py "start_phase" then do
    requireParams params ["monotonic_deadline_us"]
    .ok (.startPhase (field "monotonic_deadline_us" params))
  else if method = py "stop" then do
    requireParams params ["fault_context"]
    match field "fault_context" params with
    | .dict context => .ok (.stop (.dict context))
    | _ => .error (schemaError "fault_context must be a mapping")
  else if method = py "state" then do
    requireParams params []
    .ok .state
  else if method = py "close" then do
    requireParams params []
    .ok .close
  else .error (.worker ⟨"unknown method %", [.str method]⟩)

end Dispatch

/-- `_error_record`; `text` is `str(exc) or type(exc).__name__`. -/
def errorRecord (text : WorkerError F → Str) (e : WorkerError F) : ErrorRecord :=
  match e with
  | .ipc (.schema _) => ⟨py "INVALID_ARGUMENT", text e⟩
  | .closed _ => ⟨py "WORKER_CLOSED", text e⟩
  | .ipc _ | .valueError _ => ⟨py "INTERNAL_ERROR", text e⟩
  | _ => ⟨py "WORKER_ERROR", text e⟩

/-- The response to what the worker returned or raised; only `close` returns no dictionary. -/
def responseOf (text : WorkerError F → Str) :
    Except (WorkerError F) (Val F) → Except ErrorRecord (Dict F)
  | .ok (.dict result) => .ok result
  | .ok _ => .ok (entries [("status", .str (py "closed"))])
  | .error e => .error (errorRecord text e)

/-! ## Both processes -/

/-- Where `serve` stands: before the next request, in the call of the worker, before the response,
at its end.  `last` is for a `close` that succeeded. -/
inductive HostStage (F : Type) where
  | reading
  | dispatching (requestId : ℕ) (last : Bool)
  | writing (requestId : ℕ) (outcome : Except ErrorRecord (Dict F)) (last : Bool)
  | ended

/-- Where the caller's call is: the `k`th of `_rpc`, or the `i`th of `close`. -/
inductive Slot where
  | rpc (k : ℕ)
  | close (i : ℕ)
  deriving DecidableEq

structure Link (F : Type) where
  parent : SubprocessWorker F
  /-- `str(exc) or type(exc).__name__` -/
  text : WorkerError F → Str
  system : System F := { worker := { adapterName := py "simulator" } }
  host : HostStage F := .reading
  /-- how many of the frames sent to the process it has read -/
  consumed : ℕ := 0
  /-- the event `_pump_events` holds -/
  pump : Option (Dict F) := none
  pumping : Bool := true
  /-- the frames on their way back -/
  output : List Bytes := []
  current : Option (Call F × Slot) := none
  /-- what the calls returned or raised -/
  history : List (Call F × Except (Failure F) (Val F)) := []
  /-- the events `next_event` returned -/
  delivered : List (Dict F) := []

namespace Link

inductive Label (F : Type) where
  | call (c : Call F)
  /-- the caller's call has ended -/
  | finish
  | nextEvent
  /-- a step of the calls in `SubprocessWorker` -/
  | write (k : ℕ)
  | drained (k : ℕ)
  | wakeRpc (k : ℕ)
  | closeNext (i : ℕ)
  | reap
  /-- the reader gets the next frame -/
  | deliver
  | hostReads
  | hostWrites
  | exit
  | pumpTakes
  | pumpWrites
  /-- the worker's waiting call goes on -/
  | resume
  | wake (i : ℕ)
  | tick (nowUs : ℤ)

/-- `spawn` has returned: the hello is read. -/
def start (parent : SubprocessWorker F) (text : WorkerError F → Str) : Link F :=
  { parent := parent.readMessage (.hello (py "simulator") methods), text }

def withParent (s : Link F) (parent : SubprocessWorker F) : Link F := { s with parent }

section Steps

variable [PyFloat F] [PyText F] [Cbor F]

def call (s : Link F) (c : Call F) : Option (Link F) :=
  match s.current with
  | some _ => none
  | none => match c with
    | .close =>
      if s.parent.closed then some { s with history := s.history ++ [(Call.close, Except.ok .none)] }
      else some { s with
        parent := s.parent.close, current := some (.close, .close s.parent.closes.length) }
    | c => some { s with
        parent := s.parent.rpc c.method c.params, current := some (c, .rpc s.parent.rpcs.length) }

def finish (s : Link F) : Option (Link F) :=
  match s.current with
  | none => none
  | some (c, .rpc k) => match s.parent.rpcs[k]?.map Rpc.stage with
    | some (.returned result) =>
      some { s with current := none, history := s.history ++ [(c, Except.ok (.dict result))] }
    | some (.failed f) => some { s with current := none, history := s.history ++ [(c, Except.error f)] }
    | _ => none
  | some (c, .close i) =>
    if s.parent.closes[i]? = some .done then
      some { s with current := none, history := s.history ++ [(c, Except.ok .none)] }
    else none

def nextEvent (s : Link F) : Option (Link F) :=
  match s.parent.closed, s.parent.events with
  | false, event :: events => some { s with
      parent := { s.parent with events }, delivered := s.delivered ++ [event] }
  | _, _ => none

/-- What `read_frame` makes of a frame. -/
def received (s : Link F) (frame : Bytes) : ReadFrame F :=
  match (Ipc.decodeFrame frame s.parent.maxFrameBytes : Except (Ipc.IpcError F) (Dict F)) with
  | .ok raw => .message raw
  | .error e => .raised e

def deliver (s : Link F) : Option (Link F) :=
  if s.parent.reading then
    match s.output with
    | frame :: output => some { s with parent := s.parent.read (s.received frame), output }
    | [] => if s.parent.alive then none else some (s.withParent (s.parent.read .eof))
  else none

/-- The worker answered the call of this request. -/
def answered (s : Link F) (requestId : ℕ) (last : Bool) (reply : Except (WorkerError F) (Val F))
    (system : System F) : Link F :=
  { s with system, host := .writing requestId (responseOf s.text reply) (last && reply.isOk) }

/-- `serve` with a request. -/
def serve (s : Link F) (requestId : ℕ) (method : Str) (params : Dict F) : Link F :=
  match dispatch method params with
  | .error e => s.answered requestId false (.error e) s.system
  | .ok c => match s.system.call c with
    | (some reply, system) => s.answered requestId c.isClose reply system
    | (none, system) => { s with system, host := .dispatching requestId c.isClose }

def hostReads (s : Link F) : Option (Link F) :=
  match s.host, s.parent.sent[s.consumed]? with
  | .reading, some frame =>
    let s := { s with consumed := s.consumed + 1 }
    match (Ipc.decodeFrame frame s.parent.maxFrameBytes).bind validateWireMessage with
    | .ok (.request requestId method params) => some (s.serve requestId method params)
    | _ => some { s with host := .ended }
  | .reading, none => if s.parent.stdinOpen then none else some { s with host := .ended }
  | _, _ => none

/-- The response is written; one that cannot be encoded ends the process. -/
def hostWrites (s : Link F) : Option (Link F) :=
  match s.host with
  | .writing requestId outcome last =>
    match encodeFrame (responseEnvelope requestId outcome) s.parent.maxFrameBytes with
    | .ok frame => some { s with
        output := s.output ++ [frame], host := if last then .ended else .reading }
    | .error _ => some { s with host := .ended }
  | _ => none

def exit (s : Link F) : Option (Link F) :=
  match s.host with
  | .ended => if s.parent.alive then some (s.withParent { s.parent with alive := false }) else none
  | _ => none

def pumpTakes (s : Link F) : Option (Link F) :=
  match s.host, s.pump, s.system.react .nextEvent with
  | .ended, _, _ => none
  | _, none, some (some (.ok (.dict event)), system) =>
    if s.pumping then some { s with system, pump := some event } else none
  | _, _, _ => none

/-- An event that cannot be encoded ends the pump. -/
def pumpWrites (s : Link F) : Option (Link F) :=
  match s.pump with
  | none => none
  | some event =>
    if s.parent.alive then
      match encodeFrame (eventEnvelope event) s.parent.maxFrameBytes with
      | .ok frame => some { s with output := s.output ++ [frame], pump := none }
      | .error _ => some { s with pump := none, pumping := false }
    else none

def resume (s : Link F) : Option (Link F) :=
  match s.host, s.system.react (.resume 0) with
  | .dispatching requestId last, some (some reply, system) =>
    some (s.answered requestId last reply system)
  | _, _ => none

/-- A step of the phase tasks or of the clock in the process. -/
def inside (s : Link F) (l : Worker.Label F) : Option (Link F) :=
  if s.parent.alive then (s.system.step l).map fun system => { s with system } else none

def step (s : Link F) : Label F → Option (Link F)
  | .call c => s.call c
  | .finish => s.finish
  | .nextEvent => s.nextEvent
  | .write k => (s.parent.step (.write k)).map s.withParent
  | .drained k => (s.parent.step (.drained k)).map s.withParent
  | .wakeRpc k => (s.parent.step (.wake k)).map s.withParent
  | .closeNext i => (s.parent.step (.closeNext i)).map s.withParent
  | .reap => (s.parent.step .reap).map s.withParent
  | .deliver => s.deliver
  | .hostReads => s.hostReads
  | .hostWrites => s.hostWrites
  | .exit => s.exit
  | .pumpTakes => s.pumpTakes
  | .pumpWrites => s.pumpWrites
  | .resume => s.resume
  | .wake i => s.inside (.wake i)
  | .tick nowUs => s.inside (.tick nowUs)

end Steps

end Link

/-! ## The worker alone -/

/-- An `InMemoryWorker` whose caller makes one call at a time, with what the calls returned or
raised and the events `next_event` returned. -/
structure Direct (F : Type) where
  system : System F := { worker := { adapterName := py "simulator" } }
  current : Option (Call F) := none
  history : List (Call F × Except (WorkerError F) (Val F)) := []
  events : List (Dict F) := []

namespace Direct

inductive Label (F : Type) where
  | call (c : Call F)
  | resume
  | nextEvent
  | wake (i : ℕ)
  | tick (nowUs : ℤ)

variable [PyFloat F] [PyText F] [Cbor F]

def step (s : Direct F) : Label F → Option (Direct F)
  | .call c => match s.current, s.system.call c with
    | none, (some reply, system) => some { s with system, history := s.history ++ [(c, reply)] }
    | none, (none, system) => some { s with system, current := some c }
    | some _, _ => none
  | .resume => match s.current, s.system.react (.resume 0) with
    | some c, some (some reply, system) =>
      some { s with system, current := none, history := s.history ++ [(c, reply)] }
    | _, _ => none
  | .nextEvent => match s.system.react .nextEvent with
    | some (some (.ok (.dict event)), system) =>
      some { s with system, events := s.events ++ [event] }
    | _ => none
  | .wake i => (s.system.step (.wake i)).map fun system => { s with system }
  | .tick nowUs => (s.system.step (.tick nowUs)).map fun system => { s with system }

end Direct

end RemoteRobot.Worker
