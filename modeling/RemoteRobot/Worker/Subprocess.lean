import RemoteRobot.Ipc.Wire
import RemoteRobot.Worker.InMemory
import RemoteRobot.Lib.Except
import RemoteRobot.Lib.Table
import RemoteRobot.Lib.Transition

/-!
# The subprocess worker

`SubprocessWorker` of `worker.py`, from its construction on: the calls of `_rpc`, the reader task,
`close` and the worker process at the other end.  A label is what happens between two awaits of one
of them; the table of the pending requests is written by all.  A process that got SIGTERM is taken to
be dead at once: the worker host has no handler for it.

Behind the fields of the source stand the calls themselves, and the history: the frames the process
was sent, the responses that were read, and what the process has done.
-/

namespace RemoteRobot.Worker

open Py Except

open Ipc (IpcError WireMessage ErrorRecord validateWireMessage encodeFrame requestEnvelope)

variable {F : Type}

/-! ## Exceptions -/

def ipcMessage : IpcError F → Message F
  | .schema m | .frameTooLarge m | .truncatedFrame m | .nonCanonicalFrame m | .valueError m => m
  | .encoding _ => ⟨"%", []⟩

/-- `str(exc)` -/
def WorkerError.message : WorkerError F → Message F
  | .worker m | .state m | .closed m | .protocol m | .timeout m | .valueError m => m
  | .remote code message => ⟨"%: %", [.str code, .str message]⟩
  | .ipc e => ipcMessage e

/-- `isinstance(exc, WorkerError)` -/
def WorkerError.isWorkerError : WorkerError F → Bool
  | .ipc _ | .valueError _ => false
  | _ => true

/-! ## Calls of `_rpc` -/

inductive Future (F : Type) where
  | pending
  | result (value : Dict F)
  | exception (e : WorkerError F)
  | cancelled

def Future.isPending : Future F → Bool
  | .pending => true
  | _ => false

/-- `future.cancel()` -/
def Future.cancel : Future F → Future F
  | .pending => .cancelled
  | future => future

theorem Future.isPending_cancel (future : Future F) : future.cancel.isPending = false := by
  cases future <;> rfl

theorem Future.cancel_eq_self {future : Future F} (h : future.isPending = false) :
    future.cancel = future := by
  cases future with
  | pending => cases h
  | _ => rfl

theorem Future.cancel_eq_result {future : Future F} {v : Dict F} (h : future.cancel = .result v) :
    future = .result v := by
  cases future with
  | pending => cases h
  | _ => exact h

theorem Future.cancel_eq_exception {future : Future F} {e : WorkerError F}
    (h : future.cancel = .exception e) : future = .exception e := by
  cases future with
  | pending => cases h
  | _ => exact h

/-- Why a call of `_rpc` raises. -/
inductive Failure (F : Type) where
  /-- by one of the checks at its entry -/
  | refused (e : WorkerError F)
  | encode (e : IpcError F)
  /-- a `ConnectionError` of the write -/
  | write
  /-- the exception of its future -/
  | response (e : WorkerError F)
  | timeout (e : WorkerError F)
  | cancelled

/-- `contextlib.suppress(WorkerError, BrokenPipeError, ConnectionError)` -/
def Failure.suppressed : Failure F → Bool
  | .refused e | .response e | .timeout e => e.isWorkerError
  | .write => true
  | .encode _ | .cancelled => false

/-- Where a call of `_rpc` stands: before the write lock, in `drain`, in the wait for its future, in
`_abort_transport`, at its end. -/
inductive RpcStage (F : Type) where
  | queued (frame : Bytes)
  | draining
  | waiting
  | aborting (e : WorkerError F)
  | returned (result : Dict F)
  | failed (f : Failure F)

/-- A call of `_rpc`; a refused one has neither a request ID nor a future. -/
structure Rpc (F : Type) where
  requestId : Option ℕ
  method : Str
  future : Future F
  stage : RpcStage F

/-- Where a call of `close` stands: in its own `_rpc`, in `wait_closed`, in the wait for the process,
in `_terminate`, at its end. -/
inductive Closing where
  | rpc (k : ℕ)
  | stdin
  | process
  | terminating
  | done
  deriving DecidableEq, Repr

/-! ## The state -/

/-- What the worker process does: it executes a request it was sent, or a phase. -/
inductive Activity where
  | command (frame : Bytes)
  | phase
  deriving DecidableEq

structure SubprocessWorker (F : Type) where
  requestTimeout : F
  maxFrameBytes : ℤ
  eventLimit : ℕ
  events : List (Dict F) := []
  /-- the calls behind the futures of `_pending` -/
  pending : Table ℕ ℕ := ∅
  nextRequestId : ℕ := 1
  writeLocked : Bool := false
  helloDone : Bool := false
  readerError : Option (WorkerError F) := none
  closed : Bool := false
  closing : Bool := false
  /-- the reader task has not ended -/
  reading : Bool := true
  stdinOpen : Bool := true
  /-- the process runs -/
  alive : Bool := true
  /-- `process.returncode` is known -/
  returncode : Bool := false
  rpcs : List (Rpc F) := []
  closes : List Closing := []
  sent : List Bytes := []
  responses : List (ℕ × Except ErrorRecord (Dict F)) := []
  executed : List Activity := []

/-- What the reader gets from `read_frame`. -/
inductive ReadFrame (F : Type) where
  | message (raw : Dict F)
  | raised (e : IpcError F)
  | eof

namespace SubprocessWorker

inductive Label (F : Type) where
  | rpc (method : Str) (params : Dict F)
  | write (k : ℕ)
  | drained (k : ℕ)
  | writeRaises (k : ℕ) (cancelled : Bool)
  | wake (k : ℕ)
  | timeout (k : ℕ)
  | cancel (k : ℕ)
  | aborted (k : ℕ)
  | read (frame : ReadFrame F)
  | nextEvent
  | close
  | closeNext (i : ℕ)
  | closeExpires (i : ℕ)
  /-- the caller of `close` is cancelled, or an await of it raises -/
  | closeRaises (i : ℕ)
  /-- the process ends by itself -/
  | exit
  /-- the event loop learns of the end -/
  | reap
  | act (a : Activity)

/-- The checks of `spawn` and the constructor. -/
def create [PyFloat F] (requestTimeout : F) (maxFrameBytes eventLimit : ℤ) :
    Except (WorkerError F) (SubprocessWorker F) := do
  raiseWhen (PyFloat.le requestTimeout (PyFloat.lit 0) = true)
    (.valueError ⟨"worker timeouts must be positive", []⟩)
  raiseWhen (eventLimit ≤ 0) (.valueError ⟨"event_limit must be positive", []⟩)
  raiseWhen (maxFrameBytes ≤ 0 ∨ 0xFFFFFFFF < maxFrameBytes)
    (.valueError ⟨"max_frame_bytes must be between 1 and 2^32-1", []⟩)
  .ok { requestTimeout, maxFrameBytes, eventLimit := eventLimit.toNat }

def setRpc (s : SubprocessWorker F) (k : ℕ) (f : Rpc F → Rpc F) : SubprocessWorker F :=
  { s with rpcs := s.rpcs.modify k f }

def setStage (s : SubprocessWorker F) (k : ℕ) (stage : RpcStage F) : SubprocessWorker F :=
  s.setRpc k fun r => { r with stage }

/-- `self._pending.pop(request_id, None); future.cancel()` -/
def withdraw (s : SubprocessWorker F) (k : ℕ) (r : Rpc F) : SubprocessWorker F :=
  { s.setRpc k fun r => { r with future := r.future.cancel } with
    pending := (r.requestId.map s.pending.erase).getD s.pending }

/-! ## The transport fails -/

/-- `_fail_transport` -/
def failTransport (s : SubprocessWorker F) (e : WorkerError F) : SubprocessWorker F :=
  { s with
    readerError := s.readerError.or (some e)
    helloDone := true
    pending := ∅
    rpcs := s.rpcs.mapIdx fun k r =>
      if k ∈ s.pending.values ∧ r.future.isPending = true then { r with future := .exception e }
      else r }

/-- `_terminate` up to its await -/
def terminate (s : SubprocessWorker F) : SubprocessWorker F :=
  if s.returncode then s else { s with alive := false }

/-- `_abort_transport` up to its await -/
def abortTransport (s : SubprocessWorker F) (e : WorkerError F) : SubprocessWorker F :=
  { ({ s with closing := true, closed := true }).failTransport e with
    stdinOpen := false }.terminate

/-! ## Requests -/

def addRpc (s : SubprocessWorker F) (r : Rpc F) : SubprocessWorker F := { s with rpcs := s.rpcs ++ [r] }

/-- `WorkerClosedError(f"worker transport failed: {error}")` -/
def transportFailed (e : WorkerError F) : WorkerError F :=
  .closed ⟨"worker transport failed: " ++ e.message.text, e.message.args⟩

variable [PyFloat F] [Cbor F] in
/-- `_rpc` up to the write lock. -/
def rpc (s : SubprocessWorker F) (method : Str) (params : Dict F) : SubprocessWorker F :=
  if s.closed then s.addRpc ⟨none, method, .cancelled, .failed (.refused closedError)⟩
  else match s.readerError with
    | some e => s.addRpc ⟨none, method, .cancelled, .failed (.refused (transportFailed e))⟩
    | none => match encodeFrame (requestEnvelope s.nextRequestId method params) s.maxFrameBytes with
      | .error e => { s.addRpc ⟨some s.nextRequestId, method, .cancelled, .failed (.encode e)⟩ with
          nextRequestId := s.nextRequestId + 1 }
      | .ok frame => { s.addRpc ⟨some s.nextRequestId, method, .pending, .queued frame⟩ with
          nextRequestId := s.nextRequestId + 1
          pending := s.pending.insert s.nextRequestId s.rpcs.length }

/-- The write, once the lock is free. -/
def write (s : SubprocessWorker F) (k : ℕ) (r : Rpc F) : Option (SubprocessWorker F) :=
  match r.stage with
  | .queued frame =>
    if s.writeLocked then none
    else some { s.setStage k .draining with
      writeLocked := true
      sent := if s.alive && s.stdinOpen then s.sent ++ [frame] else s.sent }
  | _ => none

def drained (s : SubprocessWorker F) (k : ℕ) (r : Rpc F) : Option (SubprocessWorker F) :=
  match r.stage with
  | .draining => some { s.setStage k .waiting with writeLocked := false }
  | _ => none

/-- An exception of the write, or a cancellation in it. -/
def writeRaises (s : SubprocessWorker F) (k : ℕ) (r : Rpc F) (cancelled : Bool) :
    Option (SubprocessWorker F) :=
  let failure : RpcStage F := .failed (if cancelled then .cancelled else .write)
  match r.stage with
  | .queued _ => some ((s.withdraw k r).setStage k failure)
  | .draining => some { (s.withdraw k r).setStage k failure with writeLocked := false }
  | _ => none

/-- The future is done. -/
def wake (s : SubprocessWorker F) (k : ℕ) (r : Rpc F) : Option (SubprocessWorker F) :=
  match r.stage, r.future with
  | .waiting, .result value => some (s.setStage k (.returned value))
  | .waiting, .exception e => some (s.setStage k (.failed (.response e)))
  | .waiting, .cancelled => some (s.setStage k (.failed .cancelled))
  | _, _ => none

def timeoutError (s : SubprocessWorker F) (method : Str) : WorkerError F :=
  .timeout ⟨"worker method % exceeded %s", [.str method, .float s.requestTimeout]⟩

/-- `except TimeoutError` of `_rpc` up to the await of `_abort_transport`. -/
def timeout (s : SubprocessWorker F) (k : ℕ) (r : Rpc F) : Option (SubprocessWorker F) :=
  match r.stage with
  | .waiting => some (((s.withdraw k r).setStage k (.aborting (s.timeoutError r.method))).abortTransport
      (s.timeoutError r.method))
  | _ => none

/-- The caller is cancelled; its request stays in the table. -/
def cancel (s : SubprocessWorker F) (k : ℕ) (r : Rpc F) : Option (SubprocessWorker F) :=
  match r.stage with
  | .waiting | .aborting _ => some (s.setStage k (.failed .cancelled))
  | _ => none

/-- `_abort_transport` behind the wait for the process; the reader is cancelled. -/
def aborted (s : SubprocessWorker F) (k : ℕ) (r : Rpc F) : Option (SubprocessWorker F) :=
  match r.stage with
  | .aborting e =>
    if s.returncode then some { s.setStage k (.failed (.timeout e)) with reading := false } else none
  | _ => none

/-! ## The reader -/

/-- `_reader_loop` ends by an exception. -/
def readerFails (s : SubprocessWorker F) (e : WorkerError F) : SubprocessWorker F :=
  { s.failTransport e with reading := false }

/-- `future.set_result` or `future.set_exception` with a response -/
def settle : Except ErrorRecord (Dict F) → Future F
  | .ok value => .result value
  | .error e => .exception (.remote e.code e.message)

def readResponse (s : SubprocessWorker F) (requestId : ℕ) (outcome : Except ErrorRecord (Dict F)) :
    SubprocessWorker F :=
  match s.pending.get requestId with
  | none => s
  | some k =>
    let s := { s with pending := s.pending.erase requestId }
    if (s.rpcs[k]?.map fun r => r.future.isPending) = some true then
      s.setRpc k fun r => { r with future := settle outcome }
    else s.readerFails (.valueError ⟨"invalid state", []⟩)

def readMessage (s : SubprocessWorker F) : WireMessage F → SubprocessWorker F
  | .hello _ _ =>
    if s.helloDone then s.readerFails (.protocol ⟨"worker sent more than one hello", []⟩)
    else { s with helloDone := true }
  | .response requestId outcome =>
    { s.readResponse requestId outcome with responses := s.responses ++ [(requestId, outcome)] }
  | .event event =>
    if s.events.length < s.eventLimit then { s with events := s.events ++ [event] }
    else s.readerFails (.protocol ⟨"worker event queue overflow", []⟩)
  | .request _ _ _ => s.readerFails
      (.protocol ⟨"unexpected worker message kind %", [.str (py "request")]⟩)

variable [PyFloat F] in
/-- One turn of `_reader_loop`.  The error at the end of the output also quotes the stderr of the
process. -/
def read (s : SubprocessWorker F) : ReadFrame F → SubprocessWorker F
  | .eof =>
    if s.closing then { s with reading := false }
    else s.readerFails (.closed ⟨"worker process closed its output", []⟩)
  | .raised e => s.readerFails (.ipc e)
  | .message raw => match validateWireMessage raw with
    | .error e => s.readerFails (.protocol (ipcMessage e))
    | .ok message => s.readMessage message

/-! ## Closing -/

def setClosing (s : SubprocessWorker F) (i : ℕ) (c : Closing) : SubprocessWorker F :=
  { s with closes := s.closes.modify i fun _ => c }

variable [PyFloat F] [Cbor F] in
/-- `close` up to its first await. -/
def close (s : SubprocessWorker F) : SubprocessWorker F :=
  if s.closed then s
  else if s.returncode = false ∧ s.readerError.isNone = true then
    { ({ s with closing := true }).rpc (py "close") [] with
      closes := s.closes ++ [Closing.rpc s.rpcs.length] }
  else { s with closing := true, stdinOpen := false, closes := s.closes ++ [Closing.stdin] }

/-- The `finally` of `close`. -/
def finishClose (s : SubprocessWorker F) (i : ℕ) : SubprocessWorker F :=
  ({ s with closed := true }.setClosing i .done).failTransport closedError

/-- The next await of `close` returns; its `_rpc` may also raise. -/
def closeNext (s : SubprocessWorker F) (i : ℕ) : Closing → Option (SubprocessWorker F)
  | .rpc k => match s.rpcs[k]?.map Rpc.stage with
    | some (.returned _) => some ({ s with stdinOpen := false }.setClosing i .stdin)
    | some (.failed f) =>
      if f.suppressed then some ({ s with stdinOpen := false }.setClosing i .stdin)
      else some (s.finishClose i)
    | _ => none
  | .stdin => if s.returncode then some (s.finishClose i) else some (s.setClosing i .process)
  | .process | .terminating => if s.returncode then some (s.finishClose i) else none
  | .done => none

/-- Two seconds are over. -/
def closeExpires (s : SubprocessWorker F) (i : ℕ) : Closing → Option (SubprocessWorker F)
  | .process => some (s.setClosing i .terminating).terminate
  | _ => none

def closeRaises (s : SubprocessWorker F) (i : ℕ) : Closing → Option (SubprocessWorker F)
  | .stdin | .process | .terminating => some (s.finishClose i)
  | _ => none

/-! ## The system -/

/-- The process executes what it was sent, or a phase. -/
def act (s : SubprocessWorker F) (a : Activity) : Option (SubprocessWorker F) :=
  let known : Bool := match a with
    | .command frame => frame ∈ s.sent
    | .phase => true
  if s.alive && known then some { s with executed := s.executed ++ [a] } else none

variable [PyFloat F] [Cbor F] in
def step (s : SubprocessWorker F) : Label F → Option (SubprocessWorker F)
  | .rpc method params => some (s.rpc method params)
  | .write k => s.rpcs[k]?.bind (s.write k)
  | .drained k => s.rpcs[k]?.bind (s.drained k)
  | .writeRaises k cancelled => s.rpcs[k]?.bind fun r => s.writeRaises k r cancelled
  | .wake k => s.rpcs[k]?.bind (s.wake k)
  | .timeout k => s.rpcs[k]?.bind (s.timeout k)
  | .cancel k => s.rpcs[k]?.bind (s.cancel k)
  | .aborted k => s.rpcs[k]?.bind (s.aborted k)
  | .read frame => if s.reading then some (s.read frame) else none
  | .nextEvent => match s.closed, s.events with
    | true, _ => some s
    | false, [] => none
    | false, _ :: events => some { s with events }
  | .close => some s.close
  | .closeNext i => s.closes[i]?.bind (s.closeNext i)
  | .closeExpires i => s.closes[i]?.bind (s.closeExpires i)
  | .closeRaises i => s.closes[i]?.bind (s.closeRaises i)
  | .exit => if s.alive then some { s with alive := false } else none
  | .reap => if s.alive then none else some { s with returncode := true }
  | .act a => s.act a

theorem act_eq_some {s s' : SubprocessWorker F} {a : Activity} (h : s.act a = some s') :
    s.alive = true ∧ s' = { s with executed := s.executed ++ [a] } := by
  unfold act at h
  cases a with
  | command frame =>
    simp only [Bool.and_eq_true] at h
    split_ifs at h with hc
    exact ⟨hc.1, (Option.some.inj h).symm⟩
  | phase =>
    simp only [Bool.and_true] at h
    split_ifs at h with hc
    exact ⟨hc, (Option.some.inj h).symm⟩

end SubprocessWorker

end RemoteRobot.Worker
