import RemoteRobot.Worker.InMemory
import RemoteRobot.Lib.Transition
import RemoteRobot.Lib.Except

/-!
# Calls and phase tasks of one worker

The calls on an `InMemoryWorker` run to their end at once, but for `stop` and `close`, which wait
for the cancelled phase task; the tasks run between the calls.  `System` is the worker with its
tasks, the calls that wait and the clock, `react` what one label does and what the call of the label
returns or raises.  The fields behind the clock are the history of the run: the phase events that
were put in the queue with the task they come from, the plans accepted, and how much of the history
each `stop` that returned had behind it.
-/

namespace RemoteRobot.Worker

open Py Except

variable {F : Type}

/-! ## Tasks -/

/-- Where `_execute_phase` stands: not begun, in the sleep before the start, in the sleep of the
phase, at its end. -/
inductive Stage where
  | created
  | sleeping (untilUs : ℤ)
  | working (actualStartUs untilUs : ℤ)
  | done
  deriving DecidableEq, Repr

/-- A phase task, with the plan of the worker when the task was created. -/
structure PhaseTask (F : Type) where
  deadlineUs : ℤ
  plan : Option (Dict F)
  stage : Stage := .created
  cancelled : Bool := false

inductive EventKind where
  | started | completed
  deriving DecidableEq, Repr

/-- A phase event in the queue. -/
structure PhaseEvent (F : Type) where
  task : ℕ
  kind : EventKind
  atUs : ℤ
  event : Dict F

/-! ## The system -/

inductive Call (F : Type) where
  | prepareDisabled
  | preparePhase (phasePlan : Val F)
  | startPhase (monotonicDeadlineUs : Val F)
  | stop (faultContext : Val F)
  | state
  | close

/-- A call that waits for the cancelled task. -/
inductive Waiting (F : Type) where
  | stop (faultContext : Val F) (task : ℕ)
  | close (task : ℕ)

def Waiting.task : Waiting F → ℕ
  | .stop _ i | .close i => i

structure System (F : Type) where
  worker : InMemoryWorker F
  tasks : List (PhaseTask F) := []
  waiting : List (Waiting F) := []
  nowUs : ℤ := 0
  log : List (PhaseEvent F) := []
  accepted : List (Dict F) := []
  /-- for each `stop` that returned the length of the log and the number of tasks then -/
  stops : List (ℕ × ℕ) := []

inductive Label (F : Type) where
  | call (c : Call F)
  /-- the `k`th waiting call goes on -/
  | resume (k : ℕ)
  /-- the caller of the `k`th waiting call is cancelled -/
  | abandon (k : ℕ)
  | nextEvent
  /-- task `i` runs to its next await -/
  | wake (i : ℕ)
  | tick (nowUs : ℤ)

/-- What the call of a label returns or raises, if it ends there; `none` as a value is `None`. -/
abbrev Reply (F : Type) := Option (Except (WorkerError F) (Val F))

namespace System

/-- The end of a task: the `finally` of `_execute_phase`. -/
def leave (s : System F) (i : ℕ) : System F :=
  { s with
    tasks := s.tasks.modify i fun t => { t with stage := .done }
    worker := if s.worker.phaseTask = some i then { s.worker with phaseTask := none }
      else s.worker }

def setStage (s : System F) (i : ℕ) (stage : Stage) : System F :=
  { s with tasks := s.tasks.modify i fun t => { t with stage } }

/-- The worker `w` has put an event of task `i` in its queue. -/
def record (s : System F) (i : ℕ) (kind : EventKind) (w : InMemoryWorker F) : System F :=
  { s with
    worker := w
    log := s.log ++ (w.events.getLast?.map fun event => ⟨i, kind, s.nowUs, event⟩).toList }

/-- `_cancel_phase_task` up to its await; returns the task to wait for. -/
def cancelPhaseTask (s : System F) : Option ℕ × System F :=
  match s.worker.phaseTask with
  | none => (none, s)
  | some i => (some i, { s with
      worker := { s.worker with phaseTask := none }
      tasks := s.tasks.modify i fun t => { t with cancelled := true } })

section React

variable [PyFloat F] [PyText F] [Cbor F]

/-- A call that ends at once. -/
def answer (s : System F) (x : Outcome F) : Reply F × System F :=
  (some (x.1.map .dict), { s with worker := x.2 })

/-- `stop` behind its await. -/
def finishStop (s : System F) (faultContext : Val F) : Reply F × System F :=
  match s.worker.stopFinish faultContext with
  | (.error e, w) => (some (.error e), { s with worker := w })
  | (.ok result, w) => (some (.ok (.dict result)),
      { s with worker := w, stops := s.stops ++ [(s.log.length, s.tasks.length)] })

/-- `close` behind its await. -/
def finishClose (s : System F) : Reply F × System F :=
  (some (.ok .none), { s with worker := { s.worker with status := .closed } })

def call (s : System F) : Call F → Reply F × System F
  | .prepareDisabled => s.answer s.worker.prepareDisabled
  | .preparePhase phasePlan => match s.worker.preparePhase phasePlan with
    | (.error e, w) => (some (.error e), { s with worker := w })
    | (.ok result, w) => (some (.ok (.dict result)),
        { s with worker := w, accepted := s.accepted ++ w.phasePlan.toList })
  | .startPhase deadlineUs => match s.worker.startPhase deadlineUs s.tasks.length with
    | (.error e, w) => (some (.error e), { s with worker := w })
    | (.ok result, w) => (some (.ok (.dict result)),
        { s with
          worker := w
          tasks := s.tasks ++ [⟨w.lastStartDeadlineUs.getD 0, w.phasePlan, .created, false⟩] })
  | .stop faultContext => match s.worker.stopChecks faultContext with
    | .error e => (some (.error e), s)
    | .ok () => match s.cancelPhaseTask with
      | (none, s) => s.finishStop faultContext
      | (some i, s) => (none, { s with waiting := s.waiting ++ [Waiting.stop faultContext i] })
  | .state => (some (s.worker.state.map .dict), s)
  | .close =>
    if s.worker.status = .closed then (some (.ok .none), s)
    else match s.cancelPhaseTask with
      | (none, s) => s.finishClose
      | (some i, s) => (none, { s with waiting := s.waiting ++ [Waiting.close i] })

/-- `_execute_phase` behind the sleep of the phase. -/
def finishPhase (s : System F) (i : ℕ) (deadlineUs actualStartUs : ℤ) : System F :=
  if s.worker.status = .running then
    match s.worker.complete deadlineUs actualStartUs s.nowUs with
    | (.error _, w) => ({ s with worker := w }).leave i
    | (.ok (), w) => (s.record i .completed w).leave i
  else s.leave i

/-- `_execute_phase` behind the sleep before the start. -/
def enterPhase (s : System F) (i : ℕ) (deadlineUs : ℤ) : System F :=
  if s.worker.status = .scheduled then
    match s.worker.startRunning deadlineUs s.nowUs with
    | (.error _, w) => ({ s with worker := w }).leave i
    | (.ok (), w) =>
      if planDuration w.phasePlan = 0 then
        (s.record i .started w).finishPhase i deadlineUs s.nowUs
      else (s.record i .started w).setStage i
        (.working s.nowUs (s.nowUs + planDuration w.phasePlan))
  else s.leave i

/-- One step of a task; a cancelled one ends at its await, or before it begins. -/
def wake (s : System F) (i : ℕ) (t : PhaseTask F) : Option (System F) :=
  match t.stage with
  | .created =>
    if t.cancelled then some (s.setStage i .done)
    else if s.nowUs < t.deadlineUs then some (s.setStage i (.sleeping t.deadlineUs))
    else some (s.enterPhase i t.deadlineUs)
  | .sleeping untilUs =>
    if t.cancelled then some (s.leave i)
    else if untilUs ≤ s.nowUs then some (s.enterPhase i t.deadlineUs)
    else none
  | .working actualStartUs untilUs =>
    if t.cancelled then some (s.leave i)
    else if untilUs ≤ s.nowUs then some (s.finishPhase i t.deadlineUs actualStartUs)
    else none
  | .done => none

/-- A waiting call goes on when its task has ended. -/
def resume (s : System F) (k : ℕ) (c : Waiting F) : Option (Reply F × System F) :=
  if (s.tasks[c.task]?.map PhaseTask.stage).getD .done = .done then
    let s := { s with waiting := s.waiting.eraseIdx k }
    match c with
    | .stop faultContext _ => some (s.finishStop faultContext)
    | .close _ => some s.finishClose
  else none

def react (s : System F) : Label F → Option (Reply F × System F)
  | .call c => some (s.call c)
  | .resume k => s.waiting[k]?.bind (s.resume k)
  | .abandon k =>
    if k < s.waiting.length then some (none, { s with waiting := s.waiting.eraseIdx k }) else none
  | .nextEvent =>
    if s.worker.status = .closed then some (some (.error closedError), s)
    else match s.worker.events with
      | [] => none
      | event :: events =>
        some (some (.ok (.dict event)), { s with worker := { s.worker with events } })
  | .wake i => (s.tasks[i]?.bind (s.wake i)).map fun s' => (none, s')
  | .tick nowUs => if s.nowUs ≤ nowUs then some (none, { s with nowUs }) else none

def step (s : System F) (l : Label F) : Option (System F) := (s.react l).map Prod.snd

end React

end System

end RemoteRobot.Worker
