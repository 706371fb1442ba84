import RemoteRobot.Lib.Transition
import RemoteRobot.Orchestrator.Preflight

/-!
# The run orchestrator

`execute` as a state machine.  Everything up to the first `await` (preflight, lock set, lease,
`run.opened`) happens in one step, `openRun`.  From there a run is a `Task`: its program counter
says which `await` it is suspended in, with the state of every asyncio child task it waits for.
A child is `created` until the event loop first runs it, and only then calls its worker; a child
cancelled before that never calls it.  `gather` waits for all children, also when it is cancelled.

`Task.history` records what the workers see, in order; the code does not read it.
-/

namespace RemoteRobot

open Py Except

variable {F : Type}

/-! ## Calls -/

/-- What a worker method does: return a value or raise an exception of some class. -/
inductive Reply (F : Type) where
  | returned (value : Val F)
  | raised (errorType : Str)

def Reply.isError : Reply F → Bool
  | .returned _ => false
  | .raised _ => true

/-- The four methods a run calls.  The phase index is the orchestrator's, not sent. -/
inductive Command (F : Type) where
  | prepareDisabled
  | preparePhase (k : ℕ) (plan : PhasePlan F)
  | startPhase (k : ℕ) (startAtUs : ℕ)
  | stop (context : Val F)

def Command.isStop : Command F → Bool
  | .stop _ => true
  | _ => false

inductive CallStatus (F : Type) where
  | created
  | running
  | finished (reply : Reply F)

/-- One asyncio task of a fan-out. -/
structure Call (F : Type) where
  worker : Str
  command : Command F
  status : CallStatus F := .created

def Call.reply : Call F → Option (Reply F)
  | ⟨_, _, .finished reply⟩ => some reply
  | _ => none

def Call.isError (c : Call F) : Bool := c.reply.any Reply.isError

/-- `task.cancel()`: a child that has not started ends without calling its worker; a running one
has the exception thrown into it and answers when it wants. -/
def Call.cancel : Call F → Call F
  | ⟨w, c, .created⟩ => ⟨w, c, .finished (.raised (py "CancelledError"))⟩
  | call => call

/-- The calls after one of them moved on. -/
def setStatus (w : Str) (status : CallStatus F) (calls : List (Call F)) : List (Call F) :=
  calls.map fun c => if c.worker = w then { c with status := status } else c

/-! ## Waiting for events -/

inductive WaitStage where
  | started | completed
  deriving DecidableEq

def WaitStage.expectedType : WaitStage → String
  | .started => "phase_started"
  | .completed => "phase_completed"

inductive WaitStatus (F : Type) where
  | waiting
  | got (event : Val F)
  | failed

/-- One `wait_one` task. -/
structure Wait (F : Type) where
  worker : Str
  status : WaitStatus F := .waiting

def Wait.event : Wait F → Option (Val F)
  | ⟨_, .got event⟩ => some event
  | _ => none

def Wait.isFailed : Wait F → Bool
  | ⟨_, .failed⟩ => true
  | _ => false

def Wait.isWaiting : Wait F → Bool
  | ⟨_, .waiting⟩ => true
  | _ => false

/-- The waits after one of them moved on. -/
def setWaitStatus (w : Str) (status : WaitStatus F) (waits : List (Wait F)) : List (Wait F) :=
  waits.map fun x => if x.worker = w then { x with status := status } else x

/-! ## Tasks -/

/-- Why a run fails. -/
inductive Failure where
  | cancelled
  | raised (errorType : Str)
  deriving DecidableEq

def Failure.typeName : Failure → Str
  | .cancelled => py "CancelledError"
  | .raised errorType => errorType

/-- Which fan-out a run waits for.  The last is `_stop_all`, at the end of a complete program or,
with the failure, in the `except` block. -/
inductive Fan where
  | disable
  | prepare (k : ℕ)
  | start (k : ℕ) (startAtUs : ℕ)
  | stop (failure : Option Failure)
  deriving DecidableEq

inductive Outcome where
  | completed
  | failed (failure : Failure)
  deriving DecidableEq

inductive Pc (F : Type) where
  | fanOut (fan : Fan) (calls : List (Call F)) (cancelled : Bool)
  | waiting (k : ℕ) (startAtUs : ℕ) (stage : WaitStage) (waits : List (Wait F))
  | draining (failure : Failure) (pending : List Str)
  | done (outcome : Outcome)

inductive Obs (F : Type) where
  | sent (worker : Str) (command : Command F)
  | finished (worker : Str) (command : Command F) (reply : Reply F)
  | delivered (worker : Str) (event : Val F)

/-- What a run has when it opens and keeps. -/
structure Run (F : Type) where
  runId : Str
  identityId : Str
  program : CompiledProgram F
  phases : List (Val F)
  participants : List Str
  receipt : LeaseReceipt

/-- One call of `execute` past its first `await`. -/
structure Task (F : Type) extends Run F where
  currentPhase : Option Str := none
  currentPhaseExecutionId : Option Str := none
  pc : Pc F
  history : List (Obs F) := []

namespace Task

def optStr : Option Str → Val F
  | none => .none
  | some s => .str s

/-- The context `_stop_all` sends. -/
def stopContext (t : Task F) (code : String) : Val F :=
  dictOf [("code", .str (py code)), ("details", dictOf [("run_id", .str t.runId),
    ("phase_id", optStr t.currentPhase), ("phase_execution_id", optStr t.currentPhaseExecutionId)])]

def stopCode : Option Failure → String
  | none => "RUN_COMPLETED"
  | some _ => "ORCHESTRATION_FAILURE"

/-- `_stop_all` of every participant. -/
def stopAll (t : Task F) (failure : Option Failure) : Task F :=
  { t with
    pc := .fanOut (.stop failure)
      (t.participants.map fun w => ⟨w, .stop (t.stopContext (stopCode failure)), .created⟩) false }

/-- Control enters the `except` block. -/
def fail (t : Task F) (errorType : String) : Task F := t.stopAll (some (.raised (py errorType)))

/-! ### Journal events -/

def safeResult : Reply F → Val F
  | .raised errorType => dictOf [("ok", .bool false), ("error_type", .str errorType)]
  | .returned (.dict kvs) => dictOf [("ok", .bool true), ("result", .dict kvs)]
  | .returned v => dictOf [("ok", .bool true), ("result_type", .str (typeName v))]
where
  typeName : Val F → Str
    | .none => py "NoneType"
    | .bool _ => py "bool"
    | .int _ => py "int"
    | .float _ => py "float"
    | .str _ => py "str"
    | .bytes _ => py "bytes"
    | .list _ => py "list"
    | .tuple _ => py "tuple"
    | .dict _ => py "dict"

/-- `_safe_results` of a finished fan-out. -/
def safeResults (calls : List (Call F)) : Val F :=
  .dict (calls.filterMap fun c => c.reply.map fun r => (.str c.worker, safeResult r))

def safeEvents (waits : List (Wait F)) : Val F :=
  .dict (waits.filterMap fun w => w.event.map fun e => (.str w.worker, safeResult (.returned e)))

/-- The fields shared by the events of one phase. -/
def phaseEvent (t : Task F) (type : String) (k : ℕ) (extra : List (String × Val F)) : Val F :=
  dictOf ([("type", Val.str (py type)), ("phase_id", optStr t.currentPhase),
    ("phase_execution_id", optStr t.currentPhaseExecutionId), ("phase_index", .int k)] ++ extra)

/-- A `journal.append` inside the `try` block: it records the event or raises. -/
def append (t : Task F) (event : Val F) (appendError : Option Str) (next : Task F) :
    Task F × Option (Val F) :=
  match appendError with
  | none => (next, some event)
  | some errorType => (t.stopAll (some (.raised errorType)), none)

end Task

/-- The exception class, as `type(exc).__name__`. -/
def Error.typeName : Error F → String
  | .builtin .typeError => "TypeError"
  | .builtin .valueError => "ValueError"
  | .builtin .unicodeEncodeError => "UnicodeEncodeError"
  | .builtin .keyError => "KeyError"
  | .builtin .indexError => "IndexError"
  | .builtin .attributeError => "AttributeError"
  | .builtin .overflowError => "OverflowError"
  | .builtin .zeroDivisionError => "ZeroDivisionError"
  | .builtin .recursionError => "RecursionError"
  | .builtin .stopIteration => "StopIteration"
  | .value _ => "ValueError"
  | .registry _ => "RegistryError"
  | .program _ => "ProgramError"
  | .lease _ => "LeaseConflict"
  | .authorization _ => "AuthorizationError"
  | .missingWorker _ => "MissingWorkerError"
  | .unsupportedProgramFeature _ => "UnsupportedProgramFeatureError"
  | .runAlreadyActive _ => "RunAlreadyActiveError"
  | .runIdReuse _ => "RunIdReuseError"

/-- The constructor's arguments that the run lifecycle reads. -/
structure Setup (F : Type) [Cbor F] [Sha256] [PyFloat F] [PyText F] where
  registry : CapabilityRegistry F
  workers : List Str
  startLeadUs : ℕ := 100000

section Lifecycle

variable [Cbor F] [Sha256] [PyFloat F] [PyText F] (cfg : Setup F)

namespace Task

/-! ### The phase loop -/

/-- The calls of `_prepare_all`, in the order of the names. -/
def prepareCalls (k : ℕ) (plans : List (Str × PhasePlan F)) : List (Call F) :=
  (sortedSet (plans.map Prod.fst)).flatMap fun w =>
    (plans.filter fun p => p.1 = w).map fun p => ⟨w, .preparePhase k p.2, .created⟩

/-- The head of the loop body up to `_prepare_all`, or the end of the loop. -/
def beginPhase (t : Task F) (k : ℕ) : Task F :=
  match t.phases[k]? with
  | none => t.stopAll none
  | some phase =>
    match phase.getItem "phase_id" with
    | .error e => t.fail (Error.builtin e : Error F).typeName
    | .ok phaseId =>
      let t := { t with currentPhase := some phaseId.toStr }
      match workerPhasePlans t.runId t.program k phase with
      | .error e => t.fail e.typeName
      | .ok plans =>
        if plans.all fun p => t.participants.contains p.1 then
          match plans with
          | [] => t.fail "StopIteration"
          | (_, plan) :: _ =>
            { t with
              currentPhaseExecutionId := some plan.phaseExecutionId
              pc := .fanOut (.prepare k) (prepareCalls k plans) false }
        else t.fail "KeyError"

/-- The acknowledgement check of `_start_all`. -/
def scheduledAck (t : Task F) (call : Call F) : Bool :=
  match call.reply with
  | some (.returned (.dict ack)) =>
    Val.eq (field "status" ack) (.str (py "scheduled")) &&
      Val.eq (field "run_id" ack) (.str t.runId) &&
      Val.eq (field "phase_execution_id" ack) (optStr t.currentPhaseExecutionId)
  | _ => false

/-- `_observed_start_skew_us` of the collected `phase_started` events. -/
def observedStartSkewUs (waits : List (Wait F)) : Option ℕ := do
  let starts ← waits.mapM fun w => match w.event with
    | some (.dict event) => match field "actual_start_us" event with
      | .int actual => if actual < 0 then none else some actual.toNat
      | _ => none
    | _ => none
  let hi ← starts.max?
  let lo ← starts.min?
  some (hi - lo)

/-- `_max_start_skew_us` -/
def maxStartSkewUs (R : Registry F) (rootId : Str) : Except (Error F) (Option ℕ) := do
  let manifest ← plainMapping (← R.describe rootId) "root capability manifest"
  match field "max_start_skew_us" manifest with
  | .none => .ok none
  | .int v =>
    if v ≤ 0 then
      .error <| programError "INVALID_MANIFEST" "max_start_skew_us must be a positive integer"
    else .ok (some v.toNat)
  | _ => .error <| programError "INVALID_MANIFEST" "max_start_skew_us must be a positive integer"

def optNat : Option ℕ → Val F
  | none => .none
  | some n => .int n

/-- A new set of `wait_one` tasks. -/
def waitAll (t : Task F) (k startAtUs : ℕ) (stage : WaitStage) (workers : List Str) : Task F :=
  { t with pc := .waiting k startAtUs stage (workers.map fun w => { worker := w }) }

/-- What follows `_wait_all_for_event` for `phase_started`. -/
def afterStarted (t : Task F) (k startAtUs : ℕ) (waits : List (Wait F)) (appendError : Option Str) :
    Task F × Option (Val F) :=
  match observedStartSkewUs waits with
  | none => (t.fail "PhaseExecutionError", none)
  | some observed =>
    match t.program.rootId.bind (maxStartSkewUs cfg.registry.toRegistry) with
    | .error e => (t.fail e.typeName, none)
    | .ok limit =>
      let event := t.phaseEvent "phase.started" k
        [("start_at_monotonic_us", .int startAtUs), ("observed_start_skew_us", .int observed),
          ("max_start_skew_us", optNat limit), ("workers", safeEvents waits)]
      let next :=
        if limit.any fun m => m < observed then t.fail "PhaseExecutionError"
        else match (t.phases[k]?.getD .none).getItem "duration_us" with
          | .ok _ => t.waitAll k startAtUs .completed (waits.map Wait.worker)
          | .error e => t.fail (Error.builtin e : Error F).typeName
      t.append event appendError next

/-- What follows a fan-out whose calls have all finished. -/
def afterFanOut (t : Task F) (fan : Fan) (calls : List (Call F)) (nowUs : ℕ)
    (appendError : Option Str) : Task F × Option (Val F) :=
  match fan with
  | .disable =>
    if calls.any Call.isError then (t.fail "PhaseExecutionError", none)
    else
      t.append (dictOf [("type", .str (py "workers.disabled")), ("workers", safeResults calls)])
        appendError (t.beginPhase 0)
  | .prepare k =>
    if calls.any Call.isError then (t.fail "PhaseExecutionError", none)
    else
      let startAtUs := nowUs + cfg.startLeadUs
      t.append (t.phaseEvent "phase.prepared" k [("workers", safeResults calls)]) appendError
        { t with
          pc := .fanOut (.start k startAtUs)
            (calls.map fun c => ⟨c.worker, .startPhase k startAtUs, .created⟩) false }
  | .start k startAtUs =>
    if calls.any Call.isError || !calls.all t.scheduledAck then (t.fail "PhaseExecutionError", none)
    else
      t.append (t.phaseEvent "phase.scheduled" k
          [("start_at_monotonic_us", .int startAtUs), ("workers", safeResults calls)]) appendError
        (t.waitAll k startAtUs .started (calls.map Call.worker))
  | .stop none =>
    if calls.any Call.isError then (t.fail "PhaseExecutionError", none)
    else
      t.append (dictOf [("type", .str (py "run.completed")), ("phase_count", .int t.phases.length),
        ("safe_idle", safeResults calls)]) appendError { t with pc := .done .completed }
  | .stop (some failure) =>
    -- an error of this append is swallowed
    ({ t with pc := .done (.failed failure) },
      if appendError.isNone then
        some (dictOf [("type", .str (py "run.faulted")), ("phase_id", optStr t.currentPhase),
          ("phase_execution_id", optStr t.currentPhaseExecutionId),
          ("error_type", .str failure.typeName), ("safe_stop", safeResults calls)])
      else none)

/-- The run continues after the `await` it is suspended in. -/
def resume (t : Task F) (nowUs : ℕ) (appendError : Option Str) : Option (Task F × Option (Val F)) :=
  match t.pc with
  | .fanOut fan calls cancelled =>
    if calls.all fun c => c.reply.isSome then
      if cancelled then
        match fan with
        | .stop (some _) => some ({ t with pc := .done (.failed .cancelled) }, none)
        | _ => some (t.stopAll (some .cancelled), none)
      else some (t.afterFanOut cfg fan calls nowUs appendError)
    else none
  | .waiting k startAtUs stage waits =>
    if waits.any Wait.isFailed then
      some ({ t with
        pc := .draining (.raised (py "PhaseExecutionError"))
          ((waits.filter Wait.isWaiting).map Wait.worker) }, none)
    else if waits.all fun w => w.event.isSome then
      match stage with
      | .started => some (t.afterStarted cfg k startAtUs waits appendError)
      | .completed =>
        some (t.append (t.phaseEvent "phase.completed" k [("workers", safeEvents waits)]) appendError
          (t.beginPhase (k + 1)))
    else none
  | .draining failure pending => if pending = [] then some (t.stopAll (some failure), none) else none
  | .done _ => none

/-! ### Events -/

/-- The types that end a wait with an error. -/
def isFault (type : Val F) : Bool :=
  Val.eq type (.str (py "worker_fault")) || Val.eq type (.str (py "worker_faulted")) ||
    Val.eq type (.str (py "worker_stopped"))

/-- One turn of the loop of `wait_one`. -/
def classify (t : Task F) (stage : WaitStage) (event : Val F) : WaitStatus F :=
  match event with
  | .dict kvs =>
    let type := field "type" kvs
    if Val.eq (field "run_id" kvs) (.str t.runId) &&
        Val.eq (field "phase_execution_id" kvs) (optStr t.currentPhaseExecutionId) then
      if Val.eq type (.str (py stage.expectedType)) then .got event
      else if type.toKey.isNone || isFault type then .failed
      else if stage = .started ∧ Val.eq type (.str (py "phase_completed")) = true then .failed
      else .waiting
    else .waiting
  | _ => .failed

/-! ### Labels of one task -/

inductive Label (F : Type) where
  | begin (worker : Str)
  | reply (worker : Str) (reply : Reply F)
  | resume (nowUs : ℕ) (appendError : Option Str)
  | event (worker : Str) (event : Val F)
  | waitError (worker : Str)
  | waiterEnd (worker : Str)
  | cancel

/-- The event loop runs the created child of the worker for the first time. -/
def begin (t : Task F) (w : Str) : Option (Task F) :=
  match t.pc with
  | .fanOut fan calls cancelled =>
    match calls.find? fun c => c.worker = w with
    | some ⟨_, command, .created⟩ =>
      some { t with
        pc := .fanOut fan (setStatus w .running calls) cancelled
        history := t.history ++ [Obs.sent w command] }
    | _ => none
  | _ => none

def answer (t : Task F) (w : Str) (reply : Reply F) : Option (Task F) :=
  match t.pc with
  | .fanOut fan calls cancelled =>
    match calls.find? fun c => c.worker = w with
    | some ⟨_, command, .running⟩ =>
      some { t with
        pc := .fanOut fan (setStatus w (.finished reply) calls) cancelled
        history := t.history ++ [Obs.finished w command reply] }
    | _ => none
  | _ => none

/-- The waiter of the worker moves on. -/
def setWait (t : Task F) (w : Str) (status : WaitStage → WaitStatus F) : Option (Task F) :=
  match t.pc with
  | .waiting k startAtUs stage waits =>
    if waits.any fun x => x.worker = w && x.isWaiting then
      some { t with
        pc := .waiting k startAtUs stage (setWaitStatus w (status stage) waits) }
    else none
  | _ => none

def deliver (t : Task F) (w : Str) (event : Val F) : Option (Task F) :=
  (t.setWait w fun stage => t.classify stage event).map fun t' =>
    { t' with history := t'.history ++ [Obs.delivered w event] }

/-- A cancelled waiter ends. -/
def waiterEnd (t : Task F) (w : Str) : Option (Task F) :=
  match t.pc with
  | .draining failure pending =>
    if w ∈ pending then some { t with pc := .draining failure (pending.filter (· ≠ w)) } else none
  | _ => none

/-- `task.cancel()` of the task that runs `execute`. -/
def cancel (t : Task F) : Option (Task F) :=
  match t.pc with
  | .fanOut fan calls _ => some { t with pc := .fanOut fan (calls.map Call.cancel) true }
  | .waiting _ _ _ waits =>
    some { t with pc := .draining .cancelled ((waits.filter Wait.isWaiting).map Wait.worker) }
  | .draining _ pending => some { t with pc := .draining .cancelled pending }
  | .done _ => none

def step (t : Task F) : Label F → Option (Task F × Option (Val F))
  | .begin w => (t.begin w).map (·, none)
  | .reply w reply => (t.answer w reply).map (·, none)
  | .resume nowUs appendError => t.resume cfg nowUs appendError
  | .event w event => (t.deliver w event).map (·, none)
  | .waitError w => (t.setWait w fun _ => .failed).map (·, none)
  | .waiterEnd w => (t.waiterEnd w).map (·, none)
  | .cancel => t.cancel.map (·, none)

def isDone (t : Task F) : Bool :=
  match t.pc with
  | .done _ => true
  | _ => false

end Task

/-! ## The orchestrator -/

/-- The lease manager, the journal and the runs of one orchestrator. -/
structure System (F : Type) where
  leases : LeaseManager := {}
  journal : List (Str × Val F) := []
  active : List Str := []
  tasks : Table Str (Task F) := ∅

namespace System

/-- `journal.latest(run_id) is not None`, which first checks the run ID. -/
def hasHistory (s : System F) (runId : Str) : Except (Error F) Bool :=
  if canonicalKey runId then .ok (s.journal.any fun e => e.1 = runId)
  else .error (.value ⟨"run_id must be a non-empty canonical string", []⟩)

def openedEvent (identityId rootId manifestHash : Str) (program : CompiledProgram F)
    (receipt : LeaseReceipt) : Val F :=
  dictOf [("type", .str (py "run.opened")), ("identity_id", .str identityId),
    ("root_id", .str rootId), ("manifest_hash", .str manifestHash),
    ("program_sha256", .str program.sha256),
    ("lease", dictOf [("leaves", strList receipt.request.leafIds),
      ("resources", strList receipt.request.resourceKeys),
      ("safety_domains", strList receipt.request.safetyDomainKeys)])]

/-- Everything `execute` checks before it asks for the lease. -/
def prepareRun (s : System F) (runId identityId : Str) (program : CompiledProgram F) :
    Except (Error F) (CompiledProgram F × LockRequirements × List Str) := do
  raiseWhen ((← s.hasHistory runId) = true) (.runIdReuse runId)
  let checked ← preflight cfg.registry.toRegistry identityId program
  let requirements ← lockRequirements cfg.registry.toRegistry checked
  let workerIds ← participantWorkerIds checked
  let missing := workerIds.filter fun w => !cfg.workers.contains w
  raiseWhen (missing ≠ []) (.missingWorker missing)
  .ok (checked, requirements, workerIds)

/-- A new run, suspended in `_call_all(workers, "prepare_disabled")`. -/
def newTask (runId identityId : Str) (checked : CompiledProgram F) (phases : List (Val F))
    (workerIds : List Str) (receipt : LeaseReceipt) : Task F :=
  { runId, identityId, program := checked, phases, participants := workerIds, receipt
    pc := .fanOut .disable
      (workerIds.map fun w => { worker := w, command := .prepareDisabled }) false }

/-- `execute` up to its first `await`.  An error is what it raises. -/
def openRun (s : System F) (runId identityId : Str) (program : CompiledProgram F)
    (monotonicNs : ℕ) (appendError : Option (Error F)) : System F × Except (Error F) (Task F) :=
  if runId ∈ s.active then (s, .error (.runAlreadyActive runId))
  else match s.prepareRun cfg runId identityId program with
    | .error e => (s, .error e)
    | .ok (checked, requirements, workerIds) =>
      match s.leases.acquire runId requirements.leaves requirements.resources
          requirements.safetyDomains monotonicNs with
      | (leases, .error e) => ({ s with leases := leases }, .error (.lease e))
      | (leases, .ok receipt) =>
        match checked.rootId, checked.manifestHash, checked.phases, appendError with
        | .ok rootId, .ok manifestHash, .ok phases, none =>
          let task := newTask runId identityId checked phases workerIds receipt
          ({ leases := leases
             journal := s.journal ++
               [(runId, openedEvent identityId rootId manifestHash checked receipt)]
             active := runId :: s.active
             tasks := s.tasks.insert runId task }, .ok task)
        | .error e, _, _, _ | .ok _, .error e, _, _ | .ok _, .ok _, .error e, _
        | .ok _, .ok _, .ok _, some e =>
          -- outside the `try` block: the `finally` blocks release the lease
          ({ s with leases := (leases.release runId).1 }, .error e)

inductive Label (F : Type) where
  | call (runId identityId : Str) (program : CompiledProgram F) (monotonicNs : ℕ)
      (appendError : Option (Error F))
  | task (runId : Str) (label : Task.Label F)

/-- A task's step seen by the rest: its journal entry and, when it ends, the `finally` blocks. -/
def commit (s : System F) (runId : Str) (t : Task F) (event : Option (Val F)) : System F :=
  { leases := if t.isDone then (s.leases.release runId).1 else s.leases
    journal := s.journal ++ (event.map fun e => (runId, e)).toList
    active := if t.isDone then s.active.erase runId else s.active
    tasks := s.tasks.insert runId t }

def step (s : System F) : Label F → Option (System F)
  | .call runId identityId program monotonicNs appendError =>
    some (s.openRun cfg runId identityId program monotonicNs appendError).1
  | .task runId label =>
    (s.tasks.get runId).bind fun t =>
      (t.step cfg label).map fun r => s.commit runId r.1 r.2

end System

end Lifecycle

/-! ## A small orchestrator -/

section Demo

/-- A 32-byte stand-in for the hash. -/
local instance demoHash : Sha256 := lengthHash

set_option maxRecDepth 20000 in
theorem demoRegistry_accepted : demoRegistry.check = .ok () := by
  have hok : demoRegistry.check.isOk = true := by decide +kernel
  obtain ⟨_, h⟩ := exists_of_isOk hok
  exact h

/-- One worker, for the node of the demo registry. -/
def demoSetup : Setup ℚ :=
  { registry := ⟨demoRegistry, demoRegistry_accepted⟩, workers := [py "demo_robot"] }

/-- What the demo template compiles to. -/
def demoProgram (group : String) : CompiledProgram ℚ :=
  match compile demoRegistry (demoTemplate group) with
  | .ok program => program
  | .error _ => ⟨[], []⟩

/-- A call of `execute` by the demo operator. -/
def demoCall (runId group : String) : System.Label ℚ :=
  .call (py runId) (py "example_operator") (demoProgram group) 0 none

end Demo

end RemoteRobot
