import RemoteRobot.Stream.Execution

/-!
# The controller and its connections

`ProgramController` of `robot_server.py` with the connection handlers that call it and the threads
of its runs.  `runs` holds every run ever opened, so a reference to a run is its index.  `open_run`
is two steps, the check of the active run and the creation of the new one, both under the
controller's lock; anything that needs no lock may happen between them.

At most one run has a backend: while a run has one its state is not terminal, and a run whose state
is not terminal is the active one.
-/

namespace RemoteRobot.Stream

open Py Except

variable {F : Type}

/-- The arguments of `open_run`, the header already read. -/
structure OpenRequest where
  runId : Str
  header : ProgramHeader
  runMode : Str
  expectedDigest : Str
  disconnectPolicy : Str

/-- `run_mode in RUN_MODES` -/
def RunMode.ofStr? (s : Str) : Option RunMode :=
  if s = py "sealed" then some .sealed
  else if s = py "streaming" then some .streaming
  else none

def DisconnectPolicy.ofStr? (s : Str) : Option DisconnectPolicy :=
  if s = py "stop_after_timeout" then some .stopAfterTimeout
  else if s = py "complete_if_sealed" then some .completeIfSealed
  else none

/-- The arguments of the controller's constructor. -/
structure Settings (F : Type) where
  policy : SafetyPolicy F
  controlHz : F
  telemetryHz : F
  heartbeatTimeoutS : F
  holdAfterRunS : F

/-- The local variables of a `connection_handler` behind the handshake. -/
structure Connection where
  run : Option ℕ := none
  /-- the handler is through -/
  closed : Bool := false

structure ProgramController (F : Type) extends Settings F where
  active : Option ℕ := none
  runs : List (ProgramRun F) := []
  connections : ℕ → Connection := fun _ => {}
  /-- the holder of the lock inside `open_run`, behind the check of the active run -/
  opening : Option (ℕ × RunConfig F) := none

namespace ProgramController

variable (c : ProgramController F)

def init (settings : Settings F) : ProgramController F := { settings with }

/-- `self.active is not None and self.active.snapshot()["state"] not in TERMINAL_STATES` -/
def owned : Bool := match c.active.bind (c.runs[·]?) with
  | some run => !run.state.terminal
  | none => false

/-- `open_run` up to the construction of the run -/
def openRun (request : OpenRequest) : Except (Raised F) (RunConfig F) :=
  match RunMode.ofStr? request.runMode, DisconnectPolicy.ofStr? request.disconnectPolicy with
  | none, _ => .error
      (protocolError .schemaInvalid "unsupported run_mode: %" [.str request.runMode] [])
  | some _, none => .error (protocolError .schemaInvalid "unsupported disconnect_policy" [] [])
  | some runMode, some disconnectPolicy => do
    raiseWhen (disconnectPolicy = .completeIfSealed ∧ runMode ≠ .sealed)
      (protocolError .schemaInvalid "complete_if_sealed is only valid for sealed runs" [] [])
    raiseWhen (request.runId = [] ∨ 128 < request.runId.length)
      (protocolError .schemaInvalid "run_id must contain 1..128 characters" [] [])
    raiseWhen (request.expectedDigest.length ≠ 64)
      (protocolError .schemaInvalid "program_digest must be a SHA-256 hex digest" [] [])
    raiseWhen (c.owned = true)
      (protocolError .runStateConflict "another run already owns the robot" [] [])
    .ok
      { runId := request.runId
        header := request.header
        runMode
        expectedDigest := request.expectedDigest
        disconnectPolicy
        policy := c.policy
        controlHz := c.controlHz
        telemetryHz := c.telemetryHz
        heartbeatTimeoutS := c.heartbeatTimeoutS
        holdAfterRunS := c.holdAfterRunS }

/-- `ProgramRun(...)`, `self.active = run` and the handler's assignment of its `run` -/
def create (i : ℕ) (cfg : RunConfig F) (now : F) : ProgramController F :=
  { c with
    active := some c.runs.length
    runs := c.runs ++ [ProgramRun.init cfg now]
    connections := Function.update c.connections i
      { c.connections i with run := some c.runs.length }
    opening := none }

/-- The handler can take its next message. -/
def ready (i : ℕ) : Bool :=
  !(c.connections i).closed && decide (c.opening.map Prod.fst ≠ some i)

variable [PyFloat F] [FloatTrunc F] [FloatRepr F] [Sha256]

/-- A call or a step of the run `j`. -/
def onRun (j : ℕ) (label : ProgramRun.Label F) : Option (ProgramController F) := do
  let run ← c.runs[j]?
  let run' ← run.step label
  some { c with runs := c.runs.set j run' }

/-- A message for the connection's run; without one the reply is an error. -/
def forward (i : ℕ) (label : ProgramRun.Label F) : Option (ProgramController F) :=
  match (c.connections i).run with
  | none => some c
  | some j => c.onRun j label

/-- `emergency_stop` -/
def emergencyStop (reason : Str) : Option (ProgramController F) := match c.active with
  | none => some c
  | some j => c.onRun j (.requestStop reason)

/-- The message `open_run`; a connection opens one run. -/
def openMessage (i : ℕ) (request : OpenRequest) : ProgramController F :=
  match (c.connections i).run with
  | some _ => c
  | none => match c.openRun request with
    | .error _ => c
    | .ok cfg => { c with opening := some (i, cfg) }

/-- The messages of a client that reach a run. -/
inductive Request (F : Type) where
  | openRun (request : OpenRequest)
  | chunk (chunk : Chunk F)
  | start
  | heartbeat (now : F)
  | cancel (reason : Str)
  | emergencyStop

/-- Who acts. -/
inductive Label (F : Type) where
  /-- the handler `i` takes a message -/
  | message (i : ℕ) (request : Request F)
  /-- the rest of the `open_run` going on, at this reading of the clock -/
  | create (now : F)
  /-- the handler `i` ends -/
  | disconnect (i : ℕ)
  /-- the signal handler of the server -/
  | shutdown
  /-- the thread of the run `j` -/
  | exec (j : ℕ) (act : Act F)

/-- The answer to a message, where the lock is free if it is needed. -/
def handle (i : ℕ) : Request F → Option (ProgramController F)
  | .openRun request => if c.opening.isNone = true then some (c.openMessage i request) else none
  | .chunk chunk => c.forward i (.append chunk)
  | .start => c.forward i .start
  | .heartbeat now => c.forward i (.heartbeat now)
  | .cancel reason => c.forward i (.requestStop reason)
  | .emergencyStop =>
    if c.opening.isNone = true then c.emergencyStop (py "remote emergency-stop request") else none

def step (c : ProgramController F) : Label F → Option (ProgramController F)
  | .message i request => if c.ready i = true then c.handle i request else none
  | .create now => c.opening.map fun o => c.create o.1 o.2 now
  | .disconnect i =>
    if c.ready i = true then
      (c.forward i .connectionLost).map fun c' => { c' with
        connections := Function.update c'.connections i { c'.connections i with closed := true } }
    else none
  | .shutdown => if c.opening.isNone = true then c.emergencyStop (py "server shutdown") else none
  | .exec j act => c.onRun j (.exec act)

end ProgramController

/-! ## Runs that hold a backend -/

namespace ProgramRun

variable {r r' : ProgramRun F}

/-- The run is in the call of `backend_factory`, or has a backend it did not close yet. -/
def HoldsBackend (r : ProgramRun F) : Prop :=
  r.pc = .factory ∨ .created ∈ r.calls ∧ .close ∉ r.calls

theorem RunOk.not_terminal [PyFloat F] (h : r.RunOk) (hholds : r.HoldsBackend) :
    r.state.terminal = false := by
  have hstate := h.stage.state
  have hbackend := h.backend
  rcases hholds with hpc | ⟨hcreated, hclose⟩
  · rw [hpc] at hstate
    rw [show r.state = .arming from hstate]
    rfl
  · have hopen : ¬(Session .none r.calls ∨ Session .closed r.calls) := by
      rintro (hnone | hclosed)
      · rw [hnone.eq_nil] at hcreated
        cases hcreated
      · obtain ⟨before, hcalls, -⟩ := hclosed.closed
        exact hclose (by rw [hcalls]; simp)
    unfold BackendOk at hbackend
    cases hpc : r.pc <;> rw [hpc] at hbackend hstate
    case unstarted | factory => exact absurd (.inl hbackend.1) hopen
    case finish | signal | report | done => exact absurd hbackend hopen
    case fault | hold | holdSend | close =>
      rcases hstate with hs | hs
      · rw [hs]
        rfl
      · rw [hs]
        rfl
    all_goals
      rw [show r.state = _ from hstate]
      rfl

variable [PyFloat F] [FloatTrunc F]

omit [PyFloat F] [FloatTrunc F] in
/-- The thread of a run in a final state is not started, or behind the final state. -/
theorem StageOk.left_of_terminal (h : r.StageOk) (hterminal : r.state.terminal = true) :
    r.pc.stage = .idle ∨ r.pc.stage = .left := by
  have hstate := h.state
  cases hstage : r.pc.stage with
  | idle => exact .inl rfl
  | left => exact .inr rfl
  | leaving =>
    rw [hstage] at hstate
    rcases hstate with hs | hs <;> rw [hs] at hterminal <;> cases hterminal
  | _ =>
    rw [hstage] at hstate
    rw [show r.state = _ from hstate] at hterminal
    cases hterminal

theorem RunOk.executed_terminal (h : r.RunOk) (hterminal : r.state.terminal = true)
    (hx : Executed r r') : r'.state = r.state ∧ r'.calls = r.calls := by
  have hleft := h.stage.left_of_terminal hterminal
  cases hx with
  | signal | report => exact ⟨rfl, rfl⟩
  | fail htry => rcases hleft with hs | hs <;> rw [hs] at htry <;> cases htry
  | _ hpc => rcases hleft with hs | hs <;> rw [hpc] at hs <;> cases hs

/-- A final state is final, and its run is through with the backend. -/
theorem RunOk.step_terminal [FloatRepr F] [Sha256] (h : r.RunOk)
    (hterminal : r.state.terminal = true) {label : Label F} (hs : r.step label = some r') :
    r'.state = r.state ∧ r'.calls = r.calls := by
  refine step_induction (P := fun s => s.state = r.state ∧ s.calls = r.calls) hs ⟨rfl, rfl⟩
    (fun _ _ _ _ => ⟨rfl, rfl⟩) (fun hstart => ?_) (fun _ _ => ⟨rfl, rfl⟩) (fun _ => ⟨rfl, rfl⟩) ?_
    (h.executed_terminal hterminal)
  · have hbuffering := (start_eq_ok.1 hstart).1
    rw [hbuffering] at hterminal
    cases hterminal
  · unfold ProgramRun.connectionLost
    split
    · rename_i hbuffering
      rw [hbuffering] at hterminal
      cases hterminal
    · exact ⟨rfl, rfl⟩
    · exact ⟨rfl, rfl⟩

theorem reachable_terminal [FloatRepr F] [Sha256] (h : r.RunOk)
    (hterminal : r.state.terminal = true) (hreach : Transition.Reachable step r r') :
    r'.state = r.state ∧ r'.calls = r.calls := by
  refine (hreach.invariant (I := fun s => s.RunOk ∧ s.state = r.state ∧ s.calls = r.calls) ?_
    ⟨h, rfl, rfl⟩).2
  rintro s label s' ⟨hok, hstate, hcalls⟩ hs
  have hkeep := hok.step_terminal (hstate ▸ hterminal) hs
  exact ⟨hok.step hs, hkeep.1.trans hstate, hkeep.2.trans hcalls⟩

end ProgramRun

namespace ProgramController

variable {c c' : ProgramController F} [PyFloat F] [FloatTrunc F] [FloatRepr F] [Sha256]

/-! ## What a step can do -/

/-- A step of the controller: a check of `open_run` passes, the new run is created, or one run takes
a step, while a connection may close. -/
inductive Moved (c : ProgramController F) : ProgramController F → Prop where
  | idle (connections : ℕ → Connection) : Moved c { c with connections }
  | opened {i : ℕ} {request : OpenRequest} {cfg : RunConfig F} (hfree : c.opening = none)
      (hopen : c.openRun request = .ok cfg) : Moved c { c with opening := some (i, cfg) }
  | created {i : ℕ} {cfg : RunConfig F} (hopening : c.opening = some (i, cfg)) (now : F) :
      Moved c (c.create i cfg now)
  | ran {j : ℕ} {run run' : ProgramRun F} {label : ProgramRun.Label F}
      (hrun : c.runs[j]? = some run) (hstep : run.step label = some run')
      (connections : ℕ → Connection) : Moved c { c with runs := c.runs.set j run', connections }

theorem onRun_eq_some {j : ℕ} {label : ProgramRun.Label F} :
    c.onRun j label = some c' ↔ ∃ run run', c.runs[j]? = some run ∧ run.step label = some run' ∧
      c' = { c with runs := c.runs.set j run' } := by
  simp only [onRun, bind, Option.bind_eq_some_iff, Option.some.injEq, eq_comm (a := c')]
  tauto

theorem moved_of_onRun {j : ℕ} {label : ProgramRun.Label F} (h : c.onRun j label = some c') :
    Moved c c' := by
  obtain ⟨run, run', hrun, hstep, rfl⟩ := onRun_eq_some.1 h
  exact .ran hrun hstep c.connections

theorem moved_of_emergencyStop {reason : Str} (h : c.emergencyStop reason = some c') :
    Moved c c' := by
  unfold emergencyStop at h
  split at h
  · cases h
    exact .idle c.connections
  · exact moved_of_onRun h

theorem moved_of_handle {i : ℕ} {request : Request F} (h : c.handle i request = some c') :
    Moved c c' := by
  have hforward : ∀ label, c.forward i label = some c' → Moved c c' := by
    intro label h
    unfold forward at h
    split at h
    · cases h
      exact .idle c.connections
    · exact moved_of_onRun h
  unfold handle at h
  split at h
  · split_ifs at h with hfree
    cases h
    unfold openMessage
    split
    · exact .idle c.connections
    · split
      · exact .idle c.connections
      · exact .opened (Option.isNone_iff_eq_none.1 hfree) ‹_›
  · exact hforward _ h
  · exact hforward _ h
  · exact hforward _ h
  · exact hforward _ h
  · split_ifs at h
    exact moved_of_emergencyStop h

theorem moved_of_step {label : Label F} (h : c.step label = some c') : Moved c c' := by
  unfold step at h
  split at h
  · split_ifs at h
    exact moved_of_handle h
  · obtain ⟨⟨i, cfg⟩, hopening, rfl⟩ := Option.map_eq_some_iff.1 h
    exact .created hopening _
  · split_ifs at h
    obtain ⟨c₁, hc₁, rfl⟩ := Option.map_eq_some_iff.1 h
    unfold forward at hc₁
    split at hc₁
    · cases hc₁
      exact .idle _
    · obtain ⟨run, run', hrun, hstep, rfl⟩ := onRun_eq_some.1 hc₁
      exact .ran hrun hstep _
  · split_ifs at h
    exact moved_of_emergencyStop h
  · exact moved_of_onRun h

/-- A run stays where it is in the list and takes at most a step. -/
theorem Moved.run (h : Moved c c') {j : ℕ} {run : ProgramRun F} (hrun : c.runs[j]? = some run) :
    ∃ run', c'.runs[j]? = some run' ∧ (run' = run ∨ ∃ label, run.step label = some run') := by
  cases h with
  | idle | opened => exact ⟨run, hrun, .inl rfl⟩
  | created hopening now =>
    refine ⟨run, ?_, .inl rfl⟩
    show (c.runs ++ [_])[j]? = some run
    rw [List.getElem?_append_left (List.getElem?_eq_some_iff.1 hrun).1, hrun]
  | @ran k run₁ run₁' label hrun₁ hstep =>
    by_cases hk : k = j
    · subst hk
      obtain rfl : run₁ = run := Option.some.inj (hrun₁.symm.trans hrun)
      refine ⟨run₁', ?_, .inr ⟨label, hstep⟩⟩
      exact List.getElem?_set_self (List.getElem?_eq_some_iff.1 hrun).1
    · refine ⟨run, ?_, .inl rfl⟩
      show (c.runs.set k run₁')[j]? = some run
      rw [List.getElem?_set_ne hk, hrun]

/-- What happens to the controller is a run of each of its runs. -/
theorem reachable_run (h : Transition.Reachable step c c') {j : ℕ} {run : ProgramRun F}
    (hrun : c.runs[j]? = some run) :
    ∃ run', c'.runs[j]? = some run' ∧ Transition.Reachable ProgramRun.step run run' := by
  refine h.invariant (I := fun c' => ∃ run', c'.runs[j]? = some run' ∧
    Transition.Reachable ProgramRun.step run run') ?_ ⟨run, hrun, .refl run⟩
  rintro c₁ label c₂ ⟨run₁, hrun₁, hreach⟩ hs
  obtain ⟨run₂, hrun₂, rfl | ⟨label', hstep⟩⟩ := (moved_of_step hs).run hrun₁
  · exact ⟨run₂, hrun₂, hreach⟩
  · exact ⟨run₂, hrun₂, hreach.tail hstep⟩

/-- The runs behind a step: those before it, one of them a step further, or a new one. -/
theorem Moved.origin (h : Moved c c') {j : ℕ} {run' : ProgramRun F}
    (hrun' : c'.runs[j]? = some run') :
    (∃ run, c.runs[j]? = some run ∧ (run' = run ∨ ∃ label, run.step label = some run')) ∨
      ∃ i cfg now, c.opening = some (i, cfg) ∧ c' = c.create i cfg now ∧ j = c.runs.length ∧
        run' = .init cfg now := by
  by_cases hj : j < c.runs.length
  · obtain ⟨run₁, hrun₁, hor⟩ := h.run (List.getElem?_eq_getElem hj)
    obtain rfl : run₁ = run' := Option.some.inj (hrun₁.symm.trans hrun')
    exact .inl ⟨_, List.getElem?_eq_getElem hj, hor⟩
  · have hlen : j < c'.runs.length := (List.getElem?_eq_some_iff.1 hrun').1
    cases h with
    | idle | opened => exact absurd hlen hj
    | ran =>
      rw [List.length_set] at hlen
      exact absurd hlen hj
    | @created i cfg hopening now =>
      have hlen : j < (c.runs ++ [ProgramRun.init cfg now]).length := hlen
      rw [List.length_append, List.length_singleton] at hlen
      obtain rfl : j = c.runs.length := by omega
      refine .inr ⟨i, cfg, now, hopening, rfl, rfl, ?_⟩
      have hlast : (c.runs ++ [ProgramRun.init cfg now])[c.runs.length]? = some run' := hrun'
      rw [List.getElem?_concat_length] at hlast
      exact (Option.some.inj hlast).symm

/-! ## The owner -/

/-- Every run whose state is not final is the active one, and there is none while a run is being
opened. -/
structure ControllerOk (c : ProgramController F) : Prop where
  runs : ∀ (j : ℕ) (run : ProgramRun F), c.runs[j]? = some run → run.RunOk
  owner : ∀ (j : ℕ) (run : ProgramRun F), c.runs[j]? = some run → run.state.terminal = false →
    c.active = some j
  opening : c.opening ≠ none →
    ∀ (j : ℕ) (run : ProgramRun F), c.runs[j]? = some run → run.state.terminal = true

omit [FloatTrunc F] [FloatRepr F] [Sha256] in
theorem controllerOk_init (settings : Settings F) : (init settings).ControllerOk :=
  ⟨fun _ _ h => (by cases h), fun _ _ h => (by cases h), fun h => absurd rfl h⟩

omit [PyFloat F] [FloatTrunc F] [FloatRepr F] [Sha256] in
/-- What `open_run` checked when it goes on to create the run. -/
theorem openRun_eq_ok {request : OpenRequest} {cfg : RunConfig F}
    (h : c.openRun request = .ok cfg) : c.owned = false ∧
      (cfg.disconnectPolicy = .completeIfSealed → cfg.runMode = .sealed) := by
  unfold openRun at h
  split at h
  · cases h
  · cases h
  · simp only [bind_eq_ok, exists_unit, raiseWhen_eq_ok] at h
    obtain ⟨hsealed, -, -, howned, h⟩ := h
    cases h
    exact ⟨Bool.eq_false_iff.2 howned, fun hp => by_contra fun hm => hsealed ⟨hp, hm⟩⟩

omit [FloatTrunc F] [FloatRepr F] [Sha256] in
theorem ControllerOk.terminal_of_not_owned (h : c.ControllerOk) (howned : c.owned = false) {j : ℕ}
    {run : ProgramRun F} (hrun : c.runs[j]? = some run) : run.state.terminal = true := by
  by_contra hnot
  have hactive := h.owner j run hrun (Bool.eq_false_iff.2 hnot)
  have hlookup : c.active.bind (c.runs[·]?) = some run := by
    rw [hactive]
    exact hrun
  unfold owned at howned
  rw [hlookup] at howned
  exact hnot (by simpa using howned)

/-- A run in a final state keeps it; so a run that is not in one was not before. -/
theorem ControllerOk.not_terminal_of_moved (h : c.ControllerOk) {j : ℕ}
    {run run' : ProgramRun F} (hrun : c.runs[j]? = some run)
    (hor : run' = run ∨ ∃ label, run.step label = some run')
    (hnot : run'.state.terminal = false) : run.state.terminal = false := by
  rcases hor with rfl | ⟨label, hstep⟩
  · exact hnot
  · by_contra hterminal
    have hterminal : run.state.terminal = true := by simpa using hterminal
    rw [((h.runs j run hrun).step_terminal hterminal hstep).1, hterminal] at hnot
    cases hnot

theorem ControllerOk.runOk_of_moved (h : c.ControllerOk) (hmoved : Moved c c') {j : ℕ}
    {run' : ProgramRun F} (hrun' : c'.runs[j]? = some run') : run'.RunOk := by
  rcases hmoved.origin hrun' with ⟨run, hrun, rfl | ⟨label, hstep⟩⟩ | ⟨i, cfg, now, -, -, -, rfl⟩
  · exact h.runs j run' hrun
  · exact (h.runs j run hrun).step hstep
  · exact ProgramRun.runOk_init cfg now

theorem ControllerOk.moved (h : c.ControllerOk) (hmoved : Moved c c') : c'.ControllerOk := by
  refine ⟨fun j run' => h.runOk_of_moved hmoved, fun j run' hrun' hnot => ?_,
    fun hopening j run' hrun' => ?_⟩
  · rcases hmoved.origin hrun' with ⟨run, hrun, hor⟩ | ⟨i, cfg, now, -, rfl, rfl, rfl⟩
    · have hbefore := h.not_terminal_of_moved hrun hor hnot
      cases hmoved with
      | created hopening =>
        -- while a run is being opened every other run is in a final state
        rw [h.opening (by rw [hopening]; exact Option.some_ne_none _) j run hrun] at hbefore
        cases hbefore
      | idle | opened | ran => exact h.owner j run hrun hbefore
    · rfl
  · rcases hmoved.origin hrun' with ⟨run, hrun, hor⟩ | ⟨i, cfg, now, -, rfl, -, -⟩
    · by_contra hnot
      have hbefore := h.not_terminal_of_moved hrun hor (Bool.eq_false_iff.2 hnot)
      have hterminal : run.state.terminal = true := by
        cases hmoved with
        | created => exact absurd rfl hopening
        | opened hfree hopen => exact h.terminal_of_not_owned (openRun_eq_ok hopen).1 hrun
        | idle | ran => exact h.opening hopening j run hrun
      rw [hterminal] at hbefore
      cases hbefore
    · exact absurd rfl hopening

theorem controllerOk_of_reachable {settings : Settings F}
    (h : Transition.Reachable step (init settings) c) : c.ControllerOk :=
  h.invariant (fun _ _ _ hc hs => hc.moved (moved_of_step hs)) (controllerOk_init settings)

omit [FloatTrunc F] [FloatRepr F] [Sha256] in
theorem ControllerOk.holder_active (h : c.ControllerOk) {j : ℕ} {run : ProgramRun F}
    (hrun : c.runs[j]? = some run) (hholds : run.HoldsBackend) : c.active = some j :=
  h.owner j run hrun ((h.runs j run hrun).not_terminal hholds)

/-- At most one run holds a backend, no run holds one where `open_run` gets through, up to the
creation of its run, and a run in a final state keeps it and makes no more calls. -/
theorem one_backend (settings : Settings F) (c : ProgramController F)
    (h : Transition.Reachable step (init settings) c) :
    (∀ (i j : ℕ) (run₁ run₂ : ProgramRun F), c.runs[i]? = some run₁ → c.runs[j]? = some run₂ →
      run₁.HoldsBackend → run₂.HoldsBackend → i = j) ∧
    (∀ request cfg, c.openRun request = .ok cfg → ∀ run ∈ c.runs, ¬run.HoldsBackend) ∧
    (c.opening ≠ none → ∀ run ∈ c.runs, ¬run.HoldsBackend) ∧
    (∀ (j : ℕ) (run : ProgramRun F), c.runs[j]? = some run → run.state.terminal = true →
      ∀ c', Transition.Reachable step c c' → ∃ run', c'.runs[j]? = some run' ∧
        run'.state = run.state ∧ run'.calls = run.calls) := by
  have hok := controllerOk_of_reachable h
  have hnone : (∀ (j : ℕ) (run : ProgramRun F), c.runs[j]? = some run → run.state.terminal = true) →
      ∀ run ∈ c.runs, ¬run.HoldsBackend := by
    intro hall run hmem hholds
    obtain ⟨j, hrun⟩ := List.getElem?_of_mem hmem
    have hnot := (hok.runs j run hrun).not_terminal hholds
    rw [hall j run hrun] at hnot
    cases hnot
  refine ⟨fun i j run₁ run₂ hrun₁ hrun₂ hholds₁ hholds₂ => ?_, fun request cfg hopen => ?_,
    fun hopening => hnone (hok.opening hopening), fun j run hrun hterminal c' hreach => ?_⟩
  · have hi := hok.holder_active hrun₁ hholds₁
    exact Option.some.inj (hi.symm.trans (hok.holder_active hrun₂ hholds₂))
  · exact hnone fun j run hrun => hok.terminal_of_not_owned (openRun_eq_ok hopen).1 hrun
  · obtain ⟨run', hrun', hreach'⟩ := reachable_run hreach hrun
    exact ⟨run', hrun', ProgramRun.reachable_terminal (hok.runs j run hrun) hterminal hreach'⟩

end ProgramController

/-! ## A robot that changes hands -/

section Demo

open ProgramController

local instance controllerHash : Sha256 := lengthHash

def demoSettings : Settings ℚ := ⟨.default, 20, 5, 3, 0⟩

def demoRequest : OpenRequest :=
  ⟨[114], demoHeader, py "sealed", demoDigest, py "stop_after_timeout"⟩

/-- A label of the run `j`, by the connection `i`. -/
def demoLabel (i j : ℕ) : ProgramRun.Label ℚ → ProgramController.Label ℚ
  | .append c => .message i (.chunk c)
  | .start => .message i .start
  | .heartbeat now => .message i (.heartbeat now)
  | .requestStop reason => .message i (.cancel reason)
  | .connectionLost => .disconnect i
  | .exec act => .exec j act

/-- A run from its opening to its end, and the next one behind the check. -/
def demoTakeover : List (ProgramController.Label ℚ) :=
  [Label.message 0 (.openRun demoRequest), .create 0] ++ demoRun.map (demoLabel 0 0) ++
    [Label.message 1 (.openRun demoRequest)]

theorem one_backend_demo : ∃ c run, Transition.run step (init demoSettings) demoTakeover = some c ∧
    c.runs[0]? = some run ∧ run.state = .completed ∧ c.opening.isSome = true ∧
    (∀ run ∈ c.runs, ¬run.HoldsBackend) ∧
    ∀ c', Transition.Reachable step c c' → ∃ run', c'.runs[0]? = some run' ∧
      run'.state = .completed ∧ run'.calls = run.calls := by
  have hrun : ((Transition.run step (init demoSettings) demoTakeover).map fun c =>
      (c.runs[0]?.map ProgramRun.state, c.opening.isSome)) = some (some .completed, true) := by
    decide +kernel
  obtain ⟨c, hc, he⟩ := Option.map_eq_some_iff.1 hrun
  simp only [Prod.mk.injEq, Option.map_eq_some_iff] at he
  obtain ⟨⟨run, hrun, hstate⟩, hopening⟩ := he
  obtain ⟨-, -, hnone, hkeep⟩ := one_backend demoSettings c ⟨_, hc⟩
  have hterminal : run.state.terminal = true := by
    rw [hstate]
    rfl
  refine ⟨c, run, hc, hrun, hstate, hopening, hnone (Option.isSome_iff_ne_none.1 hopening),
    fun c' hreach => ?_⟩
  obtain ⟨run', hrun', hstate', hcalls⟩ := hkeep 0 run hrun hterminal c' hreach
  exact ⟨run', hrun', hstate'.trans hstate, hcalls⟩

end Demo

end RemoteRobot.Stream
