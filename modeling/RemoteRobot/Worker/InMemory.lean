import RemoteRobot.Ipc.Frame

/-!
# The in-memory worker

`InMemoryWorker` of `worker.py`: the record and what each call does to it between two awaits.  A
call returns what it raises or returns together with the record it leaves behind, since several
calls change the record before they raise.  The phase task is known here by its number alone; the
tasks themselves are in `Worker.Tasks`.
-/

namespace RemoteRobot.Worker

open Py Except

open Ipc (IpcError)

variable {F : Type}

/-! ## Exceptions -/

/-- What the workers raise; the first four are `WorkerError` and its subclasses. -/
inductive WorkerError (F : Type) where
  | worker (m : Message F)
  | state (m : Message F)
  | closed (m : Message F)
  | protocol (m : Message F)
  | timeout (m : Message F)
  | remote (code message : Str)
  | ipc (e : IpcError F)
  | valueError (m : Message F)

/-- `IPCSchemaError(text)` -/
def schemaError (text : String) (args : List (Val F) := []) : WorkerError F :=
  .ipc (.schema ⟨text, args⟩)

/-! ## The record -/

inductive Status where
  | created | disabled | prepared | scheduled | running | completed | stopped | closed
  deriving DecidableEq, Repr

def Status.text : Status → String
  | .created => "created"
  | .disabled => "disabled"
  | .prepared => "prepared"
  | .scheduled => "scheduled"
  | .running => "running"
  | .completed => "completed"
  | .stopped => "stopped"
  | .closed => "closed"

/-- The status as a field. -/
def Status.toVal (s : Status) : Val F := .str (py s.text)

/-- `prepare_phase` asks for one of these. -/
def Status.takesPlan (s : Status) : Bool :=
  s == .disabled || s == .stopped || s == .prepared || s == .completed

structure InMemoryWorker (F : Type) where
  adapterName : Str := py "in-memory"
  eventLimit : ℕ := 256
  events : List (Dict F) := []
  status : Status := .created
  phasePlan : Option (Dict F) := none
  lastStartDeadlineUs : Option ℤ := none
  lastStop : Option (Dict F) := none
  /-- the number of `_phase_task` -/
  phaseTask : Option ℕ := none

/-- What a call raises or returns, and the worker after it. -/
abbrev Outcome (F : Type) := Except (WorkerError F) (Dict F) × InMemoryWorker F

/-- `__init__` -/
def InMemoryWorker.create (adapterName : Str) (eventLimit : ℤ) :
    Except (WorkerError F) (InMemoryWorker F) :=
  if eventLimit ≤ 0 then .error (.valueError ⟨"event_limit must be positive", []⟩)
  else .ok { adapterName, eventLimit := eventLimit.toNat }

def closedError : WorkerError F := .closed ⟨"worker is closed", []⟩

/-- The fields that identify a phase. -/
def identityFields : List String := ["run_id", "phase_id", "phase_execution_id"]

/-- `int(plan.get("duration_us", 0))`; a plan that was accepted has no other value there. -/
def planDuration (plan : Option (Dict F)) : ℤ :=
  match lookup (py "duration_us") (plan.getD []) with
  | some (.int n) => n
  | _ => 0

/-! ## The checks of a plan -/

def checkIdentity (plan : Dict F) (k : String) : Except (WorkerError F) Unit :=
  match lookup (py k) plan with
  | some (.str s) =>
    raiseWhen (s = []) (schemaError "phase_plan.% must be a non-empty string" [.str (py k)])
  | _ => .error (schemaError "phase_plan.% must be a non-empty string" [.str (py k)])

def checkDuration (plan : Dict F) : Except (WorkerError F) Unit :=
  match lookup (py "duration_us") plan with
  | none => .ok ()
  | some (.int n) =>
    raiseWhen (n < 0) (schemaError "phase_plan.duration_us must be a non-negative integer")
  | some _ => .error (schemaError "phase_plan.duration_us must be a non-negative integer")

def checkPlan (plan : Dict F) : Except (WorkerError F) Unit := do
  identityFields.forM (checkIdentity plan)
  checkDuration plan

section Calls

variable [PyFloat F] [PyText F] [Cbor F]

/-- `_data_copy` -/
def dataCopy (value : Val F) : Except (IpcError F) (Dict F) := do
  let payload ← Ipc.canonicalPayload value
  Ipc.decodePayload payload Ipc.defaultMaxFrameBytes

namespace InMemoryWorker

omit [PyFloat F] [Cbor F] in
/-- `_phase_identity` -/
def phaseIdentity (w : InMemoryWorker F) : List (String × Val F) :=
  identityFields.map fun k =>
    (k, .str ((lookup (py k) (w.phasePlan.getD [])).getD (.str [])).toStr)

omit [PyText F] in
/-- `_emit` -/
def emit (w : InMemoryWorker F) (event : List (String × Val F)) :
    Except (WorkerError F) Unit × InMemoryWorker F :=
  match dataCopy (dictOf event) with
  | .error e => (.error (.ipc e), w)
  | .ok copy =>
    if w.events.length < w.eventLimit then (.ok (), { w with events := w.events ++ [copy] })
    else (.error (.worker ⟨"worker event queue is full", []⟩), w)

omit [PyText F] in
/-- `self._emit({"type": type, **result}); return result` -/
def emitResult (w : InMemoryWorker F) (type : String) (result : List (String × Val F)) : Outcome F :=
  match w.emit (("type", .str (py type)) :: result) with
  | (.error e, w') => (.error e, w')
  | (.ok (), w') => (.ok (entries result), w')

/-! ## Calls -/

omit [PyText F] in
def disabledResult (w : InMemoryWorker F) : List (String × Val F) :=
  [("status", Status.disabled.toVal), ("adapter", .str w.adapterName)]

omit [PyText F] in
def prepareDisabled (w : InMemoryWorker F) : Outcome F :=
  if w.status = .closed then (.error closedError, w)
  else if w.status = .scheduled ∨ w.status = .running then
    (.error (.state ⟨"cannot prepare hardware while a phase is running", []⟩), w)
  else ({ w with status := .disabled, phasePlan := none }).emitResult "worker_disabled"
    w.disabledResult

/-- The worker that accepted a plan. -/
def withPlan (w : InMemoryWorker F) (plan : Dict F) : InMemoryWorker F :=
  { w with phasePlan := some plan, status := .prepared }

def preparedResult (w : InMemoryWorker F) : List (String × Val F) :=
  ("status", Status.prepared.toVal) :: w.phaseIdentity

def preparePhase (w : InMemoryWorker F) (phasePlan : Val F) : Outcome F :=
  if w.status = .closed then (.error closedError, w)
  else if Status.takesPlan w.status = false then
    (.error (.state ⟨"prepare_phase requires disabled or stopped state, got %",
      [w.status.toVal]⟩), w)
  else match phasePlan with
    | .dict _ => match dataCopy phasePlan with
      | .error e => (.error (.ipc e), w)
      | .ok plan => match checkPlan plan with
        | .error e => (.error e, { w with phasePlan := none })
        | .ok () => (w.withPlan plan).emitResult "phase_prepared" (w.withPlan plan).preparedResult
    | _ => (.error (schemaError "phase_plan must be a dictionary"), w)

def scheduledResult (w : InMemoryWorker F) (deadlineUs : ℤ) : List (String × Val F) :=
  ("status", Status.scheduled.toVal) :: w.phaseIdentity ++ [("requested_start_us", Val.int deadlineUs)]

/-- `start_phase`, where the task it creates gets the number `task`. -/
def startPhase (w : InMemoryWorker F) (monotonicDeadlineUs : Val F) (task : ℕ) : Outcome F :=
  if w.status = .closed then (.error closedError, w)
  else if w.status ≠ .prepared then
    (.error (.state ⟨"start_phase requires prepared state, got %", [w.status.toVal]⟩), w)
  else match monotonicDeadlineUs with
    | .int n =>
      if n < 0 then
        (.error (schemaError "monotonic_deadline_us must be a non-negative integer"), w)
      else (.ok (entries (w.scheduledResult n)),
        { w with lastStartDeadlineUs := some n, status := .scheduled, phaseTask := some task })
    | _ => (.error (schemaError "monotonic_deadline_us must be a non-negative integer"), w)

omit [PyFloat F] [PyText F] [Cbor F] in
/-- `stop` before it cancels the phase task. -/
def stopChecks (w : InMemoryWorker F) (faultContext : Val F) : Except (WorkerError F) Unit :=
  if w.status = .closed then .error closedError
  else match faultContext with
    | .dict _ => .ok ()
    | _ => .error (schemaError "fault_context must be a dictionary")

/-- The worker that stopped for a copied fault context. -/
def withStop (w : InMemoryWorker F) (context : Dict F) : InMemoryWorker F :=
  { w with lastStop := some context, status := .stopped }

def stoppedResult (w : InMemoryWorker F) (context : Dict F) : List (String × Val F) :=
  ("status", Status.stopped.toVal) :: w.phaseIdentity ++ [("fault_context", Val.dict context)]

/-- `stop` behind the cancellation of the phase task. -/
def stopFinish (w : InMemoryWorker F) (faultContext : Val F) : Outcome F :=
  match dataCopy faultContext with
  | .error e => (.error (.ipc e), w)
  | .ok context => (w.withStop context).emitResult "worker_stopped"
      ((w.withStop context).stoppedResult context)

/-- What `state` copies. -/
def stateRecord (w : InMemoryWorker F) : List (String × Val F) :=
  [("status", w.status.toVal), ("adapter", Val.str w.adapterName)] ++ w.phaseIdentity ++
    [("last_start_deadline_us", optInt w.lastStartDeadlineUs),
      ("last_stop", (w.lastStop.map Val.dict).getD .none)]

def state (w : InMemoryWorker F) : Except (WorkerError F) (Dict F) :=
  if w.status = .closed then .error closedError
  else match dataCopy (dictOf w.stateRecord) with
    | .error e => .error (.ipc e)
    | .ok copy => .ok copy

/-! ## The phase -/

def startedEvent (w : InMemoryWorker F) (deadlineUs actualStartUs : ℤ) : List (String × Val F) :=
  [("type", Val.str (py "phase_started")), ("status", Status.running.toVal)] ++ w.phaseIdentity ++
    [("requested_start_us", Val.int deadlineUs), ("actual_start_us", .int actualStartUs),
      ("start_skew_us", .int (actualStartUs - deadlineUs))]

def completedEvent (w : InMemoryWorker F) (deadlineUs actualStartUs nowUs : ℤ) :
    List (String × Val F) :=
  [("type", Val.str (py "phase_completed")), ("status", Status.completed.toVal)] ++ w.phaseIdentity ++
    [("requested_start_us", Val.int deadlineUs), ("actual_start_us", .int actualStartUs),
      ("actual_completed_us", .int nowUs), ("completed_at_us", .int nowUs)]

/-- `_execute_phase` of a scheduled worker up to the sleep of the phase. -/
def startRunning (w : InMemoryWorker F) (deadlineUs nowUs : ℤ) :
    Except (WorkerError F) Unit × InMemoryWorker F :=
  ({ w with status := .running }).emit (w.startedEvent deadlineUs nowUs)

/-- `_execute_phase` of a running worker behind the sleep of the phase. -/
def complete (w : InMemoryWorker F) (deadlineUs actualStartUs nowUs : ℤ) :
    Except (WorkerError F) Unit × InMemoryWorker F :=
  ({ w with status := .completed }).emit (w.completedEvent deadlineUs actualStartUs nowUs)

end InMemoryWorker

end Calls

end RemoteRobot.Worker
