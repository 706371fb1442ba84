import RemoteRobot.Worker.Relay
import RemoteRobot.Worker.Requests

/-!
# The pipes between the two processes

What is on its way between a `SubprocessWorker` and its process, while one call is open: the
request on one of its legs (`Leg`), the response and the events in their frames (`Channel`).
`Linked` is the relation between both processes and the worker alone, which gets each call when the
process dispatches it; the steps here leave the request where it is.
-/

namespace RemoteRobot.Worker

open Py Except Transition

open Ipc (ErrorRecord WireMessage SameOutcome encodeFrame eventEnvelope requestEnvelope
  responseEnvelope validateWireMessage)

variable {F : Type}

namespace Link

/-! ## Runs in which all fits -/

/-- What is written in the step fits into a frame, and the event that is read finds room in the
queue. -/
def fits [PyFloat F] [Cbor F] (s : Link F) : Label F → Bool
  | .call c => (Val.dict c.params).wellFormed && (s.parent.closed ||
      (encodeFrame (requestEnvelope s.parent.nextRequestId c.method c.params)
        s.parent.maxFrameBytes).isOk)
  | .hostWrites => match s.host with
    | .writing id outcome _ =>
      (encodeFrame (responseEnvelope id outcome) s.parent.maxFrameBytes).isOk
    | _ => true
  | .pumpWrites => match s.pump with
    | some event => (encodeFrame (eventEnvelope event) s.parent.maxFrameBytes).isOk
    | none => true
  | .deliver => match s.output with
    | frame :: _ => match ((Ipc.decodeFrame frame s.parent.maxFrameBytes).bind validateWireMessage :
        Except (Ipc.IpcError F) (WireMessage F)) with
      | .ok (.event _) => s.parent.events.length < s.parent.eventLimit
      | _ => true
    | [] => true
  | _ => true

/-! ## The frames on their way back -/

section Messages

variable [PyFloat F] [Cbor F]

/-- The frame bears the message. -/
def Carries (L : ℤ) (frame : Bytes) : WireMessage F → Prop
  | .response id outcome => 0 < id ∧ Ipc.wellFormedOutcome outcome = true ∧
      encodeFrame (responseEnvelope id outcome) L = .ok frame
  | .event event =>
      (Val.dict event).wellFormed = true ∧ encodeFrame (eventEnvelope event) L = .ok frame
  | _ => False

omit [PyFloat F] [Cbor F] in
def eventsOf (messages : List (WireMessage F)) : List (Dict F) :=
  messages.filterMap fun m => match m with
    | .event event => some event
    | _ => none

omit [PyFloat F] [Cbor F] in
def responsesOf (messages : List (WireMessage F)) : List (ℕ × Except ErrorRecord (Dict F)) :=
  messages.filterMap fun m => match m with
    | .response id outcome => some (id, outcome)
    | _ => none

omit [Cbor F] in
def SameEvent (event event' : Dict F) : Prop := Val.eq (.dict event) (.dict event') = true

/-- The events of `d` are those that were received, then those in the frames, then the one the pump
holds; `responses` are those in the frames. -/
structure Channel (s : Link F) (d : Direct F) (responses : List (ℕ × Except ErrorRecord (Dict F))) :
    Prop where
  frames : ∃ messages, List.Forall₂ (Carries s.parent.maxFrameBytes) s.output messages ∧
    responsesOf messages = responses ∧
    ∃ received, d.events = received ++ eventsOf messages ++ s.pump.toList ∧
      List.Forall₂ SameEvent received (s.delivered ++ s.parent.events)
  pump : ∀ event ∈ s.pump, (Val.dict event).wellFormed = true

variable {s s' : Link F} {d d' : Direct F} {rs : List (ℕ × Except ErrorRecord (Dict F))}

theorem Channel.congr (h : Channel s d rs)
    (hlimit : s'.parent.maxFrameBytes = s.parent.maxFrameBytes)
    (horiginal : d'.events = d.events) (houtput : s'.output = s.output) (hpump : s'.pump = s.pump)
    (hdelivered : s'.delivered = s.delivered) (hevents : s'.parent.events = s.parent.events) :
    Channel s' d' rs := by
  refine ⟨?_, hpump ▸ h.pump⟩
  rw [hlimit, horiginal, houtput, hpump, hdelivered, hevents]
  exact h.frames

/-- The pump takes an event. -/
theorem Channel.takes (h : Channel s d rs) (hpump : s.pump = none) {event : Dict F}
    (hevent : (Val.dict event).wellFormed = true) {system m : System F} :
    Channel { s with system, pump := some event }
      { d with system := m, events := d.events ++ [event] } rs := by
  obtain ⟨messages, hframes, hresponses, received, hevents, hreceived⟩ := h.frames
  refine ⟨⟨messages, hframes, hresponses, received, ?_, hreceived⟩, fun e he => ?_⟩
  · simp [hevents, hpump]
  · obtain rfl := Option.some.inj he
    exact hevent

/-- The pump writes its event. -/
theorem Channel.writes (h : Channel s d rs) {event : Dict F} (hpump : s.pump = some event)
    {frame : Bytes}
    (hframe : encodeFrame (eventEnvelope event) s.parent.maxFrameBytes = .ok frame) :
    Channel { s with output := s.output ++ [frame], pump := none } d rs := by
  obtain ⟨messages, hframes, hresponses, received, hevents, hreceived⟩ := h.frames
  refine ⟨⟨messages ++ [WireMessage.event event], ?_, ?_, received, ?_, hreceived⟩, fun e he => nomatch he⟩
  · exact List.rel_append hframes (.cons ⟨h.pump event hpump, hframe⟩ .nil)
  · simp [responsesOf, List.filterMap_append, ← hresponses]
  · simp [hevents, hpump, eventsOf, List.filterMap_append]

/-- A response is written. -/
theorem Channel.responds (h : Channel s d rs) {id : ℕ} {outcome : Except ErrorRecord (Dict F)}
    (hid : 0 < id) (houtcome : Ipc.wellFormedOutcome outcome = true) {frame : Bytes}
    (hframe : encodeFrame (responseEnvelope id outcome) s.parent.maxFrameBytes = .ok frame)
    {host : HostStage F} :
    Channel { s with output := s.output ++ [frame], host } d (rs ++ [(id, outcome)]) := by
  obtain ⟨messages, hframes, hresponses, received, hevents, hreceived⟩ := h.frames
  refine ⟨⟨messages ++ [WireMessage.response id outcome], ?_, ?_, received, ?_, hreceived⟩, h.pump⟩
  · exact List.rel_append hframes (.cons ⟨hid, houtcome, hframe⟩ .nil)
  · simp [responsesOf, List.filterMap_append, ← hresponses]
  · simp [hevents, eventsOf, List.filterMap_append]

omit [Cbor F] in
theorem forall₂_sameEvent_append {received a b : List (Dict F)} {event event' : Dict F}
    (h : List.Forall₂ SameEvent received (a ++ b)) (he : SameEvent event event') :
    List.Forall₂ SameEvent (received ++ [event]) (a ++ (b ++ [event'])) := by
  rw [← List.append_assoc]
  exact List.rel_append h (.cons he .nil)

/-- `next_event` returns. -/
theorem Channel.nextEvent (h : Channel s d rs) {event : Dict F} {events : List (Dict F)}
    (he : s.parent.events = event :: events) :
    Channel { s with
      parent := { s.parent with events }, delivered := s.delivered ++ [event] } d rs := by
  obtain ⟨messages, hframes, hresponses, received, hevents, hreceived⟩ := h.frames
  refine ⟨⟨messages, hframes, hresponses, received, hevents, ?_⟩, h.pump⟩
  rw [he] at hreceived
  simpa using hreceived

variable [PlainCbor F] [LawfulFloat F]

/-- The next frame bears an event. -/
theorem Channel.event (h : Channel s d rs) {frame : Bytes} {output : List Bytes}
    (hout : s.output = frame :: output) :
    (∃ raw event, Ipc.decodeFrame frame s.parent.maxFrameBytes = .ok raw ∧
      validateWireMessage raw = .ok (.event event) ∧
      Channel { s with parent := { s.parent with events := s.parent.events ++ [event] }, output }
        d rs) ∨
    ∃ raw id outcome outcome' rs', Ipc.decodeFrame frame s.parent.maxFrameBytes = .ok raw ∧
      validateWireMessage raw = .ok (.response id outcome') ∧ rs = (id, outcome) :: rs' ∧
      SameOutcome outcome outcome' ∧ Channel { s with output } d rs' := by
  obtain ⟨messages, hframes, hresponses, received, hevents, hreceived⟩ := h.frames
  rw [hout] at hframes
  obtain ⟨m, ms, hm, hms, rfl⟩ := List.forall₂_cons_left_iff.1 hframes
  cases m with
  | event event =>
    obtain ⟨hwell, hframe⟩ := hm
    obtain ⟨raw, event', hraw, hvalid, hsame⟩ := Ipc.read_event hwell hframe
    refine .inl ⟨raw, event', hraw, hvalid,
      ⟨ms, hms, hresponses, received ++ [event], ?_, ?_⟩, h.pump⟩
    · simp [hevents, eventsOf]
    · exact forall₂_sameEvent_append hreceived hsame
  | response id outcome =>
    obtain ⟨hid, hwell, hframe⟩ := hm
    obtain ⟨raw, outcome', hraw, hvalid, hsame⟩ := Ipc.read_response hid hwell hframe
    exact .inr ⟨raw, id, outcome, outcome', responsesOf ms, hraw, hvalid, hresponses.symm, hsame,
      ⟨ms, hms, rfl, received, hevents, hreceived⟩, h.pump⟩
  | hello adapter capabilities => exact hm.elim
  | request id method params => exact hm.elim

end Messages

/-! ## The request in flight -/

/-- How far the request of a call is: it waits for the pipe, it is in the pipe, the worker waits for
its phase task, the response is written, is in the pipe, is read.  `reply` is what the worker
returned or raised. -/
inductive Leg (F : Type) where
  | queued (frame : Bytes)
  | sent (frame : Bytes)
  | dispatching
  | writing (reply : Except (WorkerError F) (Val F))
  | answered (reply : Except (WorkerError F) (Val F))
  | settled (reply : Except (WorkerError F) (Val F))

namespace Leg

def reply : Leg F → Option (Except (WorkerError F) (Val F))
  | .queued _ | .sent _ | .dispatching => none
  | .writing reply | .answered reply | .settled reply => some reply

/-- The call waits in the worker. -/
def waits (c : Call F) : Leg F → Option (Call F)
  | .dispatching => some c
  | _ => none

/-- The frame that the process has not read. -/
def request : Leg F → Option Bytes
  | .queued frame | .sent frame => some frame
  | _ => none

/-- `serve` ends behind the response. -/
def isLast (c : Call F) (reply : Except (WorkerError F) (Val F)) : Bool := c.isClose && reply.isOk

/-- Where `serve` stands behind a response. -/
def hostAfter (last : Bool) : HostStage F := if last then .ended else .reading

def host (text : WorkerError F → Str) (c : Call F) (id : ℕ) : Leg F → HostStage F
  | .queued _ | .sent _ => .reading
  | .dispatching => .dispatching id c.isClose
  | .writing reply => .writing id (responseOf text reply) (isLast c reply)
  | .answered reply | .settled reply => hostAfter (isLast c reply)

/-- The response in the pipe. -/
def responses (text : WorkerError F → Str) (id : ℕ) :
    Leg F → List (ℕ × Except ErrorRecord (Dict F))
  | .answered reply => [(id, responseOf text reply)]
  | _ => []

/-- The request without a response. -/
def owed (id : ℕ) : Leg F → List ℕ
  | .settled _ => []
  | _ => [id]

/-- The write, and with it the lock of the pipe. -/
def Writes : Leg F → RpcStage F → Bool → Prop
  | .queued frame, stage, locked => stage = .queued frame ∧ locked = false
  | _, stage, locked => stage = .draining ∧ locked = true ∨ stage = .waiting ∧ locked = false

def Awaits [PyFloat F] (text : WorkerError F → Str) : Leg F → Future F → Prop
  | .settled reply, future => ∃ outcome, SameOutcome (responseOf text reply) outcome ∧
      future = SubprocessWorker.settle outcome
  | _, future => future = .pending

/-- The frames that were sent, and how many the process has read. -/
def Unread (sent : List Bytes) (consumed : ℕ) : Leg F → Prop
  | .sent frame => sent[consumed]? = some frame ∧ sent.length = consumed + 1
  | _ => sent.length = consumed

end Leg

/-- The call has ended. -/
def IsFinal : RpcStage F → Prop
  | .returned _ | .failed _ => True
  | _ => False

/-- `serve` gets the exception `e'` where the worker alone raises `e`: the same one, unless the
dispatcher refuses the argument. -/
def Relays (c : Call F) (e e' : WorkerError F) : Prop :=
  c.HasDict ∧ e' = e ∨ ¬c.HasDict ∧ e' = c.mappingError

/-- The same result, or the exception of the worker in both. -/
def SameReply (c : Call F) :
    Except (WorkerError F) (Val F) → Except (WorkerError F) (Val F) → Prop
  | .ok v, .ok w => v = w
  | .error e', .error e => Relays c e e'
  | _, _ => False

theorem sameReply_self {c : Call F} (hdict : c.HasDict) (reply : Except (WorkerError F) (Val F)) :
    SameReply c reply reply := by
  cases reply with
  | ok v => exact rfl
  | error e => exact .inl ⟨hdict, rfl⟩

/-- The call raises the error of a response, whose record the process made of the exception; behind
`close` it is refused as the worker alone refuses it. -/
def SameError (text : WorkerError F → Str) (c : Call F) (f : Failure F) (e : WorkerError F) : Prop :=
  f = .refused e ∨ ∃ e', Relays c e e' ∧
    f = .response (.remote (errorRecord text e').code (errorRecord text e').message)

section Stand

variable [PyFloat F]

/-- What a call returned or raised behind the pipes and in the worker alone. -/
def SameResult (text : WorkerError F → Str) (x : Call F × Except (Failure F) (Val F))
    (y : Call F × Except (WorkerError F) (Val F)) : Prop :=
  x.1 = y.1 ∧ match x.2, y.2 with
    | .ok v, .ok w => Val.eq w v = true
    | .error f, .error e => SameError text x.1 f e
    | _, _ => False

theorem SameResult.isOk_eq {text : WorkerError F → Str} {x : Call F × Except (Failure F) (Val F)}
    {y : Call F × Except (WorkerError F) (Val F)} (h : SameResult text x y) :
    x.2.isOk = y.2.isOk := by
  obtain ⟨c, x⟩ := x
  obtain ⟨c', y⟩ := y
  obtain ⟨-, h⟩ := h
  cases x <;> cases y <;> first | rfl | exact h.elim

/-- The parent has not ended `close`, and the transport has not failed. -/
structure Live (q : SubprocessWorker F) (closing : Bool) : Prop where
  closed : q.closed = false
  readable : q.readerError = none
  closing : q.closing = closing
  stdinOpen : q.stdinOpen = true

/-- Every request has its response, but for those in `owed`. -/
def Responded (s : Link F) (owed : List ℕ) : Prop :=
  s.parent.responses.map Prod.fst ++ owed = s.parent.rpcs.filterMap Rpc.requestId

/-- No call is open; `answers` is what the worker alone returned or raised. -/
structure Idle (s : Link F) (answers : List (Call F × Except (WorkerError F) (Val F))) : Prop where
  live : Live s.parent false
  host : s.host = .reading
  unread : s.parent.sent.length = s.consumed
  current : s.current = none
  rpcs : ∀ r ∈ s.parent.rpcs, IsFinal r.stage
  unlocked : s.parent.writeLocked = false
  closes : s.parent.closes = []
  responded : Responded s []
  history : List.Forall₂ (SameResult s.text) s.history answers

/-- The call of `_rpc` has ended with what the worker alone returned or raised; what `close` gets is
not looked at. -/
def EndsAs (text : WorkerError F → Str) (c : Call F) :
    Option (RpcStage F) → Except (WorkerError F) (Val F) → Prop
  | some (.returned result), .ok v =>
    if c.isClose then v = .none else Val.eq v (.dict result) = true
  | some (.failed f), .error e => c.isClose = false ∧ SameError text c f e
  | _, _ => False

variable [Cbor F]

/-- The `k`th call of `_rpc` is open, and its request `id` on this leg. -/
structure Flight (s : Link F) (answers : List (Call F × Except (WorkerError F) (Val F)))
    (c : Call F) (k id : ℕ) (leg : Leg F) : Prop where
  live : Live s.parent c.isClose
  sendable : c.Sendable
  frame : ∀ frame ∈ leg.request, (Val.dict c.params).wellFormed = true ∧
    encodeFrame (requestEnvelope id c.method c.params) s.parent.maxFrameBytes = .ok frame
  positive : 0 < id
  host : s.host = leg.host s.text c id
  unread : leg.Unread s.parent.sent s.consumed
  current : s.current = some (c, if c.isClose then .close 0 else .rpc k)
  rpc : ∃ r, s.parent.rpcs[k]? = some r ∧ r.requestId = some id ∧
    leg.Writes r.stage s.parent.writeLocked ∧ leg.Awaits s.text r.future
  others : ∀ (j : ℕ) (r : Rpc F), s.parent.rpcs[j]? = some r → j ≠ k → IsFinal r.stage
  closes : s.parent.closes = if c.isClose then [.rpc k] else []
  responded : Responded s (leg.owed id)
  history : ∃ old, List.Forall₂ (SameResult s.text) s.history old ∧ match leg.reply with
    | none => answers = old
    | some reply =>
      c.Answers reply ∧ ∃ reply', SameReply c reply reply' ∧ answers = old ++ [(c, reply')]

/-- The call of `_rpc` has ended. -/
structure Over (s : Link F) (answers : List (Call F × Except (WorkerError F) (Val F)))
    (c : Call F) (k : ℕ) : Prop where
  live : Live s.parent c.isClose
  host : s.host = Leg.hostAfter c.isClose
  unread : s.parent.sent.length = s.consumed
  current : s.current = some (c, if c.isClose then .close 0 else .rpc k)
  rpcs : ∀ r ∈ s.parent.rpcs, IsFinal r.stage
  unlocked : s.parent.writeLocked = false
  closes : s.parent.closes = if c.isClose then [.rpc k] else []
  responded : Responded s []
  history : ∃ old reply, List.Forall₂ (SameResult s.text) s.history old ∧ answers = old ++ [(c, reply)] ∧
    EndsAs s.text c (s.parent.rpcs[k]?.map Rpc.stage) reply

/-- The process has answered `close`, and ends. -/
structure Stopping (s : Link F) (answers : List (Call F × Except (WorkerError F) (Val F))) :
    Prop where
  closed : s.parent.closed = false
  host : s.host = .ended
  current : s.current = some (.close, .close 0)
  rpcs : ∀ r ∈ s.parent.rpcs, IsFinal r.stage
  closes : s.parent.closes = [.stdin] ∨ s.parent.closes = [.process]
  responded : Responded s []
  history : ∃ old, List.Forall₂ (SameResult s.text) s.history old ∧ answers = old ++ [(Call.close, Except.ok .none)]

/-- `close` has ended; a later call is refused. -/
structure Shut (s : Link F) (answers : List (Call F × Except (WorkerError F) (Val F))) : Prop where
  closed : s.parent.closed = true
  host : s.host = .ended
  rpcs : ∀ r ∈ s.parent.rpcs, IsFinal r.stage
  closes : s.parent.closes = [.done]
  responded : Responded s []
  history : ∃ old, List.Forall₂ (SameResult s.text) s.history old ∧ match s.current with
    | none => answers = old
    | some (c, slot) => ∃ reply, answers = old ++ [(c, reply)] ∧ match slot with
      | .rpc k => s.parent.rpcs[k]?.map Rpc.stage = some (.failed (.refused closedError)) ∧
          reply = .error closedError
      | .close i => i = 0 ∧ reply = .ok .none

/-- Where the caller and its call are. -/
inductive Spot (F : Type) where
  | idle
  | flight (c : Call F) (k id : ℕ) (leg : Leg F)
  | finished (c : Call F) (k : ℕ)
  | stopping
  | shut

namespace Spot

/-- The call that waits in the worker. -/
def waits : Spot F → Option (Call F)
  | .flight c _ _ leg => leg.waits c
  | _ => none

/-- The response in the pipe. -/
def responses (text : WorkerError F → Str) : Spot F → List (ℕ × Except ErrorRecord (Dict F))
  | .flight _ _ id leg => leg.responses text id
  | _ => []

/-- The worker has executed `close`. -/
def HasClosed : Spot F → Prop
  | .idle => False
  | .flight c _ _ leg => c.isClose = true ∧ leg.reply.isSome = true
  | .finished c _ => c.isClose = true
  | .stopping | .shut => True

/-- Where `serve` stands. -/
def host (text : WorkerError F → Str) : Spot F → HostStage F
  | .idle => .reading
  | .flight c _ id leg => leg.host text c id
  | .finished c _ => Leg.hostAfter c.isClose
  | .stopping | .shut => .ended

def Stands (s : Link F) (answers : List (Call F × Except (WorkerError F) (Val F))) : Spot F → Prop
  | .idle => Idle s answers
  | .flight c k id leg => Flight s answers c k id leg
  | .finished c k => Over s answers c k
  | .stopping => Stopping s answers
  | .shut => Shut s answers

end Spot

/-- The process ends behind a `close` alone, and the parent reads what is left. -/
structure Up (s : Link F) : Prop where
  runs : s.host ≠ .ended → s.parent.alive = true ∧ s.parent.returncode = false
  closing : s.host = .ended → s.parent.closing = true
  reads : s.parent.reading = true ∨
    s.host = .ended ∧ s.parent.alive = false ∧ s.output = []

omit [PyFloat F] [Cbor F] in
theorem Up.reading {s : Link F} (h : Up s) (hrunning : s.host ≠ .ended) :
    s.parent.reading = true := by
  obtain hread | ⟨hended, -⟩ := h.reads
  · exact hread
  · exact absurd hended hrunning

/-- The worker behind the pipes and the worker alone. -/
structure Linked (s : Link F) (d : Direct F) (spot : Spot F) : Prop where
  twin : Twin spot.waits s.system d.system
  current : d.current = spot.waits
  channel : Channel s d (spot.responses s.text)
  pending : SubprocessWorker.Pending s.parent
  next : 0 < s.parent.nextRequestId
  up : Up s
  hasClosed : spot.HasClosed → s.system.worker.status = .closed
  stands : spot.Stands s d.history

variable {s : Link F} {d : Direct F} {spot : Spot F}

theorem Linked.host (h : Linked s d spot) : s.host = spot.host s.text := by
  cases spot with
  | idle =>
    have hs : Idle s d.history := h.stands
    exact hs.host
  | flight c k id leg =>
    have hs : Flight s d.history c k id leg := h.stands
    exact hs.host
  | finished c k =>
    have hs : Over s d.history c k := h.stands
    exact hs.host
  | stopping =>
    have hs : Stopping s d.history := h.stands
    exact hs.host
  | shut =>
    have hs : Shut s d.history := h.stands
    exact hs.host

omit [PyFloat F] [Cbor F] in
theorem Spot.host_dispatching {text : WorkerError F → Str} {id : ℕ} {last : Bool}
    (h : spot.host text = .dispatching id last) :
    ∃ c k, spot = .flight c k id .dispatching ∧ last = c.isClose := by
  have hafter : ∀ b : Bool, (Leg.hostAfter b : HostStage F) ≠ .dispatching id last := by
    intro b
    cases b <;> exact nofun
  cases spot with
  | flight c k id' leg =>
    cases leg with
    | dispatching =>
      obtain ⟨rfl, rfl⟩ := HostStage.dispatching.inj h
      exact ⟨c, k, rfl, rfl⟩
    | answered reply | settled reply => exact absurd h (hafter _)
    | queued | sent | writing => exact nomatch h
  | finished c k => exact absurd h (hafter _)
  | idle | stopping | shut => exact nomatch h

omit [PyFloat F] [Cbor F] in
theorem Spot.host_writing {text : WorkerError F → Str} {id : ℕ}
    {outcome : Except ErrorRecord (Dict F)} {last : Bool}
    (h : spot.host text = .writing id outcome last) :
    ∃ c k reply, spot = .flight c k id (.writing reply) ∧ outcome = responseOf text reply ∧
      last = Leg.isLast c reply := by
  have hafter : ∀ b : Bool, (Leg.hostAfter b : HostStage F) ≠ .writing id outcome last := by
    intro b
    cases b <;> exact nofun
  cases spot with
  | flight c k id' leg =>
    cases leg with
    | writing reply =>
      obtain ⟨rfl, rfl, rfl⟩ := HostStage.writing.inj h
      exact ⟨c, k, reply, rfl, rfl, rfl⟩
    | answered reply | settled reply => exact absurd h (hafter _)
    | queued | sent | dispatching => exact nomatch h
  | finished c k => exact absurd h (hafter _)
  | idle | stopping | shut => exact nomatch h

end Stand

/-! ## Steps beside the request -/

section Beside

variable [PyFloat F] [PyText F] [Cbor F] {s s' : Link F} {d : Direct F} {spot : Spot F}

/-- All but the worker, the events and the state of the pipe back is as it was. -/
structure SameFront (s s' : Link F) : Prop where
  parent : ∃ events reading alive returncode,
    s'.parent = { s.parent with events, reading, alive, returncode }
  text : s'.text = s.text
  host : s'.host = s.host
  consumed : s'.consumed = s.consumed
  current : s'.current = s.current
  history : s'.history = s.history

omit [PyText F] in
theorem Spot.Stands.congr {answers : List (Call F × Except (WorkerError F) (Val F))}
    (h : spot.Stands s answers) (hf : SameFront s s') : spot.Stands s' answers := by
  obtain ⟨⟨events, reading, alive, returncode, hp⟩, ht, hh, hco, hcu, hhi⟩ := hf
  cases s'
  simp only at hp ht hh hco hcu hhi
  subst hp ht hh hco hcu hhi
  have hlive : ∀ {b}, Live s.parent b →
      Live { s.parent with events, reading, alive, returncode } b :=
    fun hl => ⟨hl.closed, hl.readable, hl.closing, hl.stdinOpen⟩
  cases spot with
  | idle =>
    have h : Idle s answers := h
    exact ⟨hlive h.live, h.host, h.unread, h.current, h.rpcs, h.unlocked, h.closes, h.responded,
      h.history⟩
  | flight c k id leg =>
    have h : Flight s answers c k id leg := h
    exact ⟨hlive h.live, h.sendable, h.frame, h.positive, h.host, h.unread, h.current, h.rpc,
      h.others, h.closes, h.responded, h.history⟩
  | finished c k =>
    have h : Over s answers c k := h
    exact ⟨hlive h.live, h.host, h.unread, h.current, h.rpcs, h.unlocked, h.closes, h.responded,
      h.history⟩
  | stopping =>
    have h : Stopping s answers := h
    exact ⟨h.closed, h.host, h.current, h.rpcs, h.closes, h.responded, h.history⟩
  | shut =>
    have h : Shut s answers := h
    exact ⟨h.closed, h.host, h.rpcs, h.closes, h.responded, h.history⟩

theorem Linked.pumpTakes (h : Linked s d spot) (hstep : s.pumpTakes = some s') :
    ∃ d', d.step .nextEvent = some d' ∧ Linked s' d' spot := by
  unfold Link.pumpTakes at hstep
  split at hstep
  · cases hstep
  · rename_i event system hpump hreact hhost
    split_ifs at hstep with hpumping
    obtain rfl := Option.some.inj hstep
    obtain ⟨hevent, t', ht, htwin⟩ := h.twin.nextEvent hreact
    have hclosed : system.worker.status = s.system.worker.status := by
      simp only [System.react] at hreact
      split_ifs at hreact
      · cases hreact
      · split at hreact
        · cases hreact
        · simp only [Option.some.injEq, Prod.mk.injEq] at hreact
          rw [← hreact.2]
    refine ⟨{ d with system := t', events := d.events ++ [event] }, ?_, htwin, h.current,
      h.channel.takes hpump hevent, h.pending, h.next, ⟨h.up.runs, h.up.closing, h.up.reads⟩,
      fun hc => hclosed.trans (h.hasClosed hc),
      h.stands.congr ⟨⟨_, _, _, _, rfl⟩, rfl, rfl, rfl, rfl, rfl⟩⟩
    unfold Direct.step
    simp only [ht]
  · cases hstep

omit [PyText F] in
theorem Linked.pumpWrites (h : Linked s d spot) (hfits : s.fits .pumpWrites = true)
    (hstep : s.pumpWrites = some s') : Linked s' d spot := by
  unfold Link.pumpWrites at hstep
  split at hstep
  · cases hstep
  · rename_i event hpump
    split_ifs at hstep with halive
    unfold fits at hfits
    simp only [hpump] at hfits
    split at hstep
    · rename_i frame hframe
      obtain rfl := Option.some.inj hstep
      refine ⟨h.twin, h.current, h.channel.writes hpump hframe, h.pending, h.next,
        ⟨h.up.runs, h.up.closing, .inl ?_⟩, h.hasClosed,
        h.stands.congr ⟨⟨_, _, _, _, rfl⟩, rfl, rfl, rfl, rfl, rfl⟩⟩
      obtain hread | ⟨-, hdead, -⟩ := h.up.reads
      · exact hread
      · rw [hdead] at halive
        cases halive
    · rename_i e he
      rw [he] at hfits
      cases hfits

omit [PyText F] in
theorem Linked.nextEvent (h : Linked s d spot) (hstep : s.nextEvent = some s') :
    Linked s' d spot := by
  unfold Link.nextEvent at hstep
  split at hstep
  · rename_i event events hclosed hevents
    obtain rfl := Option.some.inj hstep
    exact ⟨h.twin, h.current, h.channel.nextEvent hevents,
      h.pending.congr rfl rfl rfl rfl fun _ hx => hx, h.next,
      ⟨h.up.runs, h.up.closing, h.up.reads⟩, h.hasClosed,
      h.stands.congr ⟨⟨_, _, _, _, rfl⟩, rfl, rfl, rfl, rfl, rfl⟩⟩
  · cases hstep

/-- A step of the phase tasks or of the clock. -/
theorem Linked.inside [PlainCbor F] (h : Linked s d spot) {l : Worker.Label F} (hl : l.IsInner)
    (hstep : s.inside l = some s') :
    ∃ system, d.system.step l = some system ∧ Linked s' { d with system } spot := by
  unfold Link.inside at hstep
  split_ifs at hstep with halive
  obtain ⟨system, hsystem, rfl⟩ := Option.map_eq_some_iff.1 hstep
  obtain ⟨⟨t', ht, htwin⟩, hclosed⟩ := h.twin.inside hl hsystem
  exact ⟨t', ht, htwin, h.current, h.channel.congr rfl rfl rfl rfl rfl rfl, h.pending, h.next,
    ⟨h.up.runs, h.up.closing, h.up.reads⟩, fun hc => hclosed (h.hasClosed hc),
    h.stands.congr ⟨⟨_, _, _, _, rfl⟩, rfl, rfl, rfl, rfl, rfl⟩⟩

omit [PyText F] in
/-- The process ends. -/
theorem Linked.exit (h : Linked s d spot) (hstep : s.exit = some s') : Linked s' d spot := by
  unfold Link.exit at hstep
  split at hstep
  · rename_i hhost
    split_ifs at hstep with halive
    obtain rfl := Option.some.inj hstep
    refine ⟨h.twin, h.current, h.channel.congr rfl rfl rfl rfl rfl rfl,
      h.pending.congr rfl rfl rfl rfl fun _ hx => hx, h.next,
      ⟨fun hne => absurd hhost hne, h.up.closing, .inl ?_⟩, h.hasClosed,
      h.stands.congr ⟨⟨_, _, _, _, rfl⟩, rfl, rfl, rfl, rfl, rfl⟩⟩
    obtain hread | ⟨-, hdead, -⟩ := h.up.reads
    · exact hread
    · rw [hdead] at halive
      cases halive
  · cases hstep

/-- The event loop of the parent learns that the process has ended. -/
theorem Linked.reap (h : Linked s d spot) (hstep : s.step .reap = some s') : Linked s' d spot := by
  obtain ⟨q, hq, rfl⟩ := Option.map_eq_some_iff.1 hstep
  have hq : (if s.parent.alive then none
      else some { s.parent with returncode := true }) = some q := hq
  split at hq
  · cases hq
  · rename_i hdead
    obtain rfl := Option.some.inj hq
    exact ⟨h.twin, h.current, h.channel.congr rfl rfl rfl rfl rfl rfl,
      h.pending.congr rfl rfl rfl rfl fun _ hx => hx, h.next,
      ⟨fun hne => absurd (h.up.runs hne).1 hdead, h.up.closing, h.up.reads⟩, h.hasClosed,
      h.stands.congr ⟨⟨_, _, _, _, rfl⟩, rfl, rfl, rfl, rfl, rfl⟩⟩

/-! ### The reader -/

omit [PyFloat F] [PyText F] [Cbor F] in
theorem filterMap_requestId (rpcs : List (Rpc F)) :
    rpcs.filterMap Rpc.requestId = (rpcs.map Rpc.requestId).filterMap id := by
  rw [List.filterMap_map]
  rfl

omit [PyFloat F] [PyText F] [Cbor F] in
theorem requestIds_setRpc (q : SubprocessWorker F) (k : ℕ) {f : Rpc F → Rpc F}
    (hf : ∀ r, (f r).requestId = r.requestId) :
    (q.setRpc k f).rpcs.filterMap Rpc.requestId = q.rpcs.filterMap Rpc.requestId := by
  have hmap : (q.setRpc k f).rpcs.map Rpc.requestId = q.rpcs.map Rpc.requestId := by
    refine List.ext_getElem? fun j => ?_
    rw [List.getElem?_map, List.getElem?_map, SubprocessWorker.getElem?_setRpc, Option.map_map]
    congr 1
    funext r
    simp only [Function.comp_apply]
    split_ifs
    · exact hf r
    · rfl
  rw [filterMap_requestId, hmap, filterMap_requestId]

omit [PyFloat F] [PyText F] [Cbor F] in
/-- The response to a registered request. -/
theorem readResponse_registered {q : SubprocessWorker F} (h : SubprocessWorker.Pending q) {k id : ℕ}
    {r : Rpc F} (hr : q.rpcs[k]? = some r) (hid : r.requestId = some id)
    (hp : r.future.isPending = true) (outcome : Except ErrorRecord (Dict F)) :
    q.readResponse id outcome =
      { q.setRpc k fun r => { r with future := SubprocessWorker.settle outcome } with
        pending := q.pending.erase id } := by
  obtain ⟨i, hi, hget⟩ := h.numbered k r hr hp
  obtain rfl := Option.some.inj (hid.symm.trans hi)
  unfold SubprocessWorker.readResponse
  rw [hget]
  simp only
  rw [if_pos ?_]
  · rfl
  · rw [hr, Option.map_some, hp]

/-- The `k`th call of `_rpc` changed by `g`, with its frame or its response. -/
structure Advanced (q q' : SubprocessWorker F) (k : ℕ) (g : Rpc F → Rpc F) : Prop where
  rpcs : q'.rpcs = (q.setRpc k g).rpcs
  closed : q'.closed = q.closed
  readerError : q'.readerError = q.readerError
  closing : q'.closing = q.closing
  stdinOpen : q'.stdinOpen = q.stdinOpen
  maxFrameBytes : q'.maxFrameBytes = q.maxFrameBytes
  closes : q'.closes = q.closes

omit [PyText F] in
/-- A step of the call in flight. -/
theorem Flight.advance {answers : List (Call F × Except (WorkerError F) (Val F))} {c : Call F}
    {k id : ℕ} {leg : Leg F} (hf : Flight s answers c k id leg) (leg' : Leg F)
    {q : SubprocessWorker F} {g : Rpc F → Rpc F} (hq : Advanced s.parent q k g)
    (hid : ∀ r, (g r).requestId = r.requestId)
    (hrequest : ∀ frame ∈ leg'.request, frame ∈ leg.request)
    (hhost : leg'.host s.text c id = leg.host s.text c id) (hunread : leg'.Unread q.sent s.consumed)
    (hrpc : ∀ r, s.parent.rpcs[k]? = some r → leg'.Writes (g r).stage q.writeLocked ∧
      leg'.Awaits s.text (g r).future)
    (hresponded : q.responses.map Prod.fst ++ leg'.owed id =
      s.parent.responses.map Prod.fst ++ leg.owed id)
    (hreply : leg'.reply = leg.reply) {output : List Bytes} :
    Flight { s with parent := q, output } answers c k id leg' := by
  have hlive : Live q c.isClose := ⟨hq.closed.trans hf.live.closed,
    hq.readerError.trans hf.live.readable, hq.closing.trans hf.live.closing,
    hq.stdinOpen.trans hf.live.stdinOpen⟩
  obtain ⟨r, hr, hi, -⟩ := hf.rpc
  refine ⟨hlive, hf.sendable, fun frame hm => ?_, hf.positive, hf.host.trans hhost.symm, hunread,
    hf.current, ⟨g r, ?_, (hid r).trans hi, hrpc r hr⟩, fun j r' hr' hj => ?_,
    hq.closes.trans hf.closes, ?_, hreply ▸ hf.history⟩
  · show _ ∧ encodeFrame _ q.maxFrameBytes = _
    rw [hq.maxFrameBytes]
    exact hf.frame frame (hrequest frame hm)
  · show q.rpcs[k]? = _
    rw [hq.rpcs, SubprocessWorker.getElem?_setRpc, hr, Option.map_some, if_pos rfl]
  · have hr' : q.rpcs[j]? = some r' := hr'
    rw [hq.rpcs, SubprocessWorker.getElem?_setRpc] at hr'
    obtain ⟨r₀, hr₀, rfl⟩ := Option.map_eq_some_iff.1 hr'
    rw [if_neg (Ne.symm hj)]
    exact hf.others j r₀ hr₀ hj
  · show q.responses.map Prod.fst ++ _ = q.rpcs.filterMap Rpc.requestId
    rw [hresponded, hq.rpcs, requestIds_setRpc _ _ hid]
    exact hf.responded

omit [PyText F] in
/-- The response settles the call in flight. -/
theorem Linked.response {c : Call F} {k id : ℕ} {reply : Except (WorkerError F) (Val F)}
    (h : Linked s d (.flight c k id (.answered reply))) (hreading : s.parent.reading = true)
    {output : List Bytes} {outcome : Except ErrorRecord (Dict F)}
    (hsame : SameOutcome (responseOf s.text reply) outcome)
    (hchannel : Channel { s with output } d []) :
    Linked { s with parent := s.parent.readMessage (.response id outcome), output } d
      (.flight c k id (.settled reply)) := by
  have hf : Flight s d.history c k id (.answered reply) := h.stands
  obtain ⟨r, hr, hid, hwrites, hawaits⟩ := hf.rpc
  have hp : r.future.isPending = true := by
    rw [show r.future = .pending from hawaits]
    rfl
  have hread := readResponse_registered h.pending hr hid hp outcome
  have hpending := h.pending.readMessage (.response id outcome)
  have hq : s.parent.readMessage (.response id outcome) =
      { { s.parent.setRpc k fun r => { r with future := SubprocessWorker.settle outcome } with
          pending := s.parent.pending.erase id } with
        responses := s.parent.responses ++ [(id, outcome)] } := by
    simp only [SubprocessWorker.readMessage, hread]
  rw [hq] at hpending ⊢
  refine ⟨h.twin, h.current, hchannel.congr rfl rfl rfl rfl rfl rfl, hpending, h.next,
    ⟨h.up.runs, h.up.closing, .inl hreading⟩, h.hasClosed, ?_⟩
  refine hf.advance (.settled reply)
    (g := fun r => { r with future := SubprocessWorker.settle outcome }) ?_
    (fun _ => rfl) (fun _ hm => hm) rfl ?_ (fun r' hr' => ?_) ?_ rfl
  · exact ⟨rfl, rfl, rfl, rfl, rfl, rfl, rfl⟩
  · exact hf.unread
  · obtain rfl := Option.some.inj (hr.symm.trans hr')
    exact ⟨hwrites, outcome, hsame, rfl⟩
  · simp [Leg.owed]

omit [PyText F] in
theorem read_received {frame : Bytes} {raw : Dict F} {m : WireMessage F}
    (hraw : Ipc.decodeFrame frame s.parent.maxFrameBytes = .ok raw)
    (hvalid : validateWireMessage raw = .ok m) :
    s.parent.read (s.received frame) = s.parent.readMessage m := by
  unfold received SubprocessWorker.read
  simp only [hraw, hvalid]

omit [PyText F] in
/-- The parent reads the next frame, or the end of the frames. -/
theorem Linked.deliver [PlainCbor F] [LawfulFloat F] (h : Linked s d spot)
    (hfits : s.fits .deliver = true) (hstep : s.deliver = some s') :
    ∃ spot', Linked s' d spot' ∧ s'.output = s.output.tail ∧
      (spot' = spot ∨ ∃ c k id reply, spot = .flight c k id (.answered reply) ∧
        spot' = .flight c k id (.settled reply)) := by
  unfold Link.deliver at hstep
  split at hstep
  · rename_i hreading
    split at hstep
    · rename_i frame output hout
      obtain rfl := Option.some.inj hstep
      rw [hout]
      obtain ⟨raw, event, hraw, hvalid, hchannel⟩ |
        ⟨raw, id, outcome, outcome', rs, hraw, hvalid, hrs, hsame, hchannel⟩ := h.channel.event hout
      · have hroom : s.parent.events.length < s.parent.eventLimit := by
          unfold fits at hfits
          simpa only [hout, hraw, Except.bind, hvalid, decide_eq_true_eq] using hfits
        have hq : s.parent.read (s.received frame) =
            { s.parent with events := s.parent.events ++ [event] } := by
          rw [read_received hraw hvalid]
          exact if_pos hroom
        rw [hq]
        exact ⟨spot, ⟨h.twin, h.current, hchannel, h.pending.congr rfl rfl rfl rfl fun _ hx => hx,
          h.next, ⟨h.up.runs, h.up.closing, .inl hreading⟩, h.hasClosed,
          h.stands.congr ⟨⟨_, _, _, _, rfl⟩, rfl, rfl, rfl, rfl, rfl⟩⟩, rfl, .inl rfl⟩
      · rw [read_received hraw hvalid]
        -- only the call in flight has a response in the pipe
        cases spot with
        | flight c k id' leg =>
          cases leg with
          | answered reply =>
            obtain ⟨he, rfl⟩ := List.cons.inj hrs
            obtain ⟨rfl, rfl⟩ := Prod.mk.inj he
            exact ⟨_, h.response hreading hsame hchannel, rfl, .inr ⟨c, k, id', reply, rfl, rfl⟩⟩
          | _ => cases hrs
        | _ => cases hrs
    · rename_i hout
      split at hstep
      · cases hstep
      · rename_i hdead
        obtain rfl := Option.some.inj hstep
        have hended : s.host = .ended := by
          by_contra hne
          exact hdead (h.up.runs hne).1
        have hq : s.parent.read .eof = { s.parent with reading := false } :=
          if_pos (h.up.closing hended)
        rw [hq, hout]
        exact ⟨spot, ⟨h.twin, h.current, h.channel.congr rfl rfl rfl rfl rfl rfl,
          h.pending.congr rfl rfl rfl rfl fun _ hx => hx, h.next,
          ⟨h.up.runs, h.up.closing, .inr ⟨hended, Bool.eq_false_iff.2 hdead, hout⟩⟩, h.hasClosed,
          h.stands.congr ⟨⟨_, _, _, _, rfl⟩, rfl, rfl, rfl, rfl, rfl⟩⟩, hout, .inl rfl⟩
  · cases hstep

end Beside

end Link

end RemoteRobot.Worker
