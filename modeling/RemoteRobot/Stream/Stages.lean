import RemoteRobot.Stream.Moves

/-!
# What holds at each stage of a run

The state a run reports, the calls its backend got and the cursor it published, by the stage of the
thread.  Each is an invariant of every step.
-/

namespace RemoteRobot.Stream

open Py Except

variable {F : Type}

/-- The outcome computed so far, behind the `try` block. -/
def Pc.outcome? : Pc F → Option Outcome
  | .hold o | .holdSend o _ | .close o | .finish o | .signal o | .report o => some o
  | _ => none

/-- The states a run may be in at a stage. -/
def Stage.Allows : Stage → RunState → Prop
  | .idle, state => state = .buffering ∨ state = .stopped
  | .creating, state | .arming, state | .energized, state => state = .arming
  | .running, state => state = .running
  | .leaving, state => state = .arming ∨ state = .running
  | .left, state => state.terminal = true

theorem Stage.Allows.leaving {stage : Stage} {state : RunState} (h : stage.Allows state)
    (htry : stage.inTry = true) : Stage.leaving.Allows state := by
  cases stage with
  | creating | arming | energized => exact .inl h
  | running => exact .inr h
  | idle | leaving | left => cases htry

theorem Raised.outcome_terminal (e : Raised F) : e.outcome.state.terminal = true := by
  unfold outcome
  split
  · simp only
    split_ifs <;> rfl
  · rfl

namespace ProgramRun

variable {r r' : ProgramRun F}

/-! ## The state -/

/-- The state fits the stage, and the outcome to report is a final state. -/
@[mk_iff]
structure StageOk (r : ProgramRun F) : Prop where
  state : r.pc.stage.Allows r.state
  outcome : ∀ o, r.pc.outcome? = some o → o.state.terminal = true

theorem stageOk_init (cfg : RunConfig F) (now : F) : (init cfg now).StageOk :=
  ⟨.inl rfl, fun _ h => by cases h⟩

variable [PyFloat F] [FloatTrunc F]

theorem StageOk.executed (h : r.StageOk) (hx : Executed r r') : r'.StageOk := by
  obtain ⟨hstate, hout⟩ := h
  cases hx with
  | fail htry => exact ⟨hstate.leaving htry, fun _ h => by cases h⟩
  | handle hpc =>
    rw [hpc] at hstate
    refine ⟨hstate, fun o ho => ?_⟩
    cases ho
    exact Raised.outcome_terminal _
  | _ => simp_all [stageOk_iff, Pc.stage, Pc.outcome?, Stage.Allows, call, emit, publish,
      RunState.terminal]

omit [PyFloat F] [FloatTrunc F] in
theorem StageOk.connectionLost (h : r.StageOk) : r.connectionLost.StageOk := by
  unfold ProgramRun.connectionLost
  split
  · rename_i hbuffering
    have hidle : r.pc.stage = .idle := by
      have hstate := h.state
      rw [hbuffering] at hstate
      cases hstage : r.pc.stage <;> rw [hstage] at hstate <;>
        simp_all [Stage.Allows, RunState.terminal]
    refine ⟨?_, h.outcome⟩
    show r.pc.stage.Allows .stopped
    rw [hidle]
    exact .inr rfl
  · exact ⟨h.state, h.outcome⟩
  · exact h

/-- To hold after a step it is enough to hold after each of the things a step can do. -/
theorem step_induction [FloatRepr F] [Sha256] {P : ProgramRun F → Prop} {label : Label F}
    (hs : r.step label = some r') (h : P r)
    (extend : ∀ c message receipts, r.ChunkOk c →
      P { r.extend c with message := message, chunkReceipts := receipts })
    (start : r.start = .ok r' → P r')
    (heartbeat : ∀ now, PyFloat.le r.clock now = true → P (r.heartbeat now))
    (requestStop : ∀ reason, P (r.requestStop reason))
    (connectionLost : P r.connectionLost)
    (executed : Executed r r' → P r') : P r' := by
  rcases step_cases hs with ⟨c, -, rfl⟩ | ⟨-, hstart | rfl⟩ | ⟨now, -, hclock, rfl⟩ |
    ⟨reason, -, rfl⟩ | ⟨-, rfl⟩ | ⟨act, -, hx⟩
  · rcases append_cases r c with he | ⟨hok, message, receipts, he⟩ <;> rw [he]
    · exact h
    · exact extend c message receipts hok
  · exact start hstart
  · exact h
  · exact heartbeat now hclock
  · exact requestStop reason
  · exact connectionLost
  · exact executed (exec_moved hx)

/-- The arguments of the constructor never change. -/
theorem config_of_step [FloatRepr F] [Sha256] {label : Label F} (hs : r.step label = some r') :
    r'.toRunConfig = r.toRunConfig := by
  refine step_induction (P := fun s => s.toRunConfig = r.toRunConfig) hs rfl
    (fun _ _ _ _ => rfl) (fun hstart => ?_) (fun _ _ => rfl) (fun _ => rfl) ?_ fun hx => hx.frame.1
  · obtain ⟨-, -, -, -, rfl⟩ := start_eq_ok.1 hstart
    rfl
  · unfold ProgramRun.connectionLost
    split <;> rfl

theorem config_of_reachable [FloatRepr F] [Sha256] {s : ProgramRun F}
    (h : Transition.Reachable step s r) : r.toRunConfig = s.toRunConfig :=
  h.invariant (I := fun m => m.toRunConfig = s.toRunConfig)
    (fun _ _ _ hm hs => (config_of_step hs).trans hm) rfl

theorem StageOk.step [FloatRepr F] [Sha256] (h : r.StageOk) {label : Label F}
    (hs : r.step label = some r') : r'.StageOk := by
  refine step_induction hs h (fun c _ _ _ => ⟨h.state, h.outcome⟩) (fun hstart => ?_)
    (fun _ _ => ⟨h.state, h.outcome⟩) (fun _ => ⟨h.state, h.outcome⟩) h.connectionLost h.executed
  obtain ⟨-, -, -, -, rfl⟩ := start_eq_ok.1 hstart
  exact ⟨rfl, fun _ h => by cases h⟩

omit [PyFloat F] [FloatTrunc F] in
/-- A run can only be started from its first state. -/
theorem StageOk.idle_of_start (h : r.StageOk) (hs : r.start = .ok r') :
    r.pc = .unstarted ∧ r' = { r with
      state := .arming
      message := py "opening the local motor bus with torque disabled"
      pc := .factory } := by
  obtain ⟨hbuffering, -, -, -, rfl⟩ := start_eq_ok.1 hs
  refine ⟨?_, rfl⟩
  have hstate := h.state
  rw [hbuffering] at hstate
  cases hpc : r.pc <;> rw [hpc] at hstate <;>
    simp_all [Stage.Allows, Pc.stage, RunState.terminal]

omit [FloatTrunc F] in
/-- Chunks are accepted before the start and from the running state on. -/
theorem StageOk.stage_of_chunkOk (h : r.StageOk) {c : Chunk F} (hc : r.ChunkOk c) :
    r.pc.stage = .idle ∧ r.state = .buffering ∨
      (r.pc.stage = .running ∨ r.pc.stage = .leaving) ∧ r.state = .running := by
  have hstate := h.state
  rcases hc.state with hs | hs <;> rw [hs] at hstate <;> cases hstage : r.pc.stage <;>
    rw [hstage] at hstate <;> simp_all [Stage.Allows, RunState.terminal]

end ProgramRun

/-! ## The backend -/

/-- What became of the backend. -/
inductive BackendStage where
  | none | opened | enabled | closed
  deriving DecidableEq

/-- The calls a run may make, in order: torque at most once, poses only behind it, and one close
at the end. -/
inductive Session : BackendStage → List (BackendCall F) → Prop where
  | nil : Session .none []
  | created : Session .opened [.created]
  | prepared {cs : List (BackendCall F)} (h : Session .opened cs) :
      Session .opened (cs ++ [BackendCall.prepareDisabled])
  | enabled {cs : List (BackendCall F)} {m : Pose F} (h : Session .opened cs) :
      Session .enabled (cs ++ [BackendCall.enableAtCurrent m])
  | read {cs : List (BackendCall F)} (h : Session .enabled cs) : Session .enabled (cs ++ [BackendCall.readQ])
  | sent {cs : List (BackendCall F)} {p : Purpose} {q : Pose F} (h : Session .enabled cs) :
      Session .enabled (cs ++ [BackendCall.sendQ p q])
  | closedOpened {cs : List (BackendCall F)} (h : Session .opened cs) :
      Session .closed (cs ++ [BackendCall.close])
  | closedEnabled {cs : List (BackendCall F)} (h : Session .enabled cs) :
      Session .closed (cs ++ [BackendCall.close])

namespace Session

variable {stage : BackendStage} {cs : List (BackendCall F)}

theorem close_not_mem (h : Session stage cs) (hstage : stage ≠ .closed) : .close ∉ cs := by
  induction h with
  | closedOpened | closedEnabled => exact absurd rfl hstage
  | _ => simp_all

/-- A closed backend was closed once, by the last call. -/
theorem closed (h : Session .closed cs) : ∃ before, cs = before ++ [BackendCall.close] ∧ .close ∉ before := by
  cases h with
  | closedOpened h => exact ⟨_, rfl, h.close_not_mem (by decide)⟩
  | closedEnabled h => exact ⟨_, rfl, h.close_not_mem (by decide)⟩

theorem created_mem (h : Session stage cs) (hstage : stage ≠ .none) : .created ∈ cs := by
  induction h with
  | nil => exact absurd rfl hstage
  | _ => simp_all

theorem eq_nil (h : Session .none cs) : cs = [] := by cases h; rfl

theorem exists_enable (h : Session .enabled cs) : ∃ m, .enableAtCurrent m ∈ cs := by
  generalize hstage : BackendStage.enabled = stage at h
  induction h with
  | @enabled cs m _ => exact ⟨m, by simp⟩
  | read _ ih | sent _ ih =>
    obtain ⟨m, hm⟩ := ih hstage
    exact ⟨m, List.mem_append_left _ hm⟩
  | _ => cases hstage

end Session

/-- `enable_at_current` -/
def BackendCall.isEnable : BackendCall F → Bool
  | .enableAtCurrent _ => true
  | _ => false

theorem Session.countP_isEnable {stage : BackendStage} {cs : List (BackendCall F)}
    (h : Session stage cs) : cs.countP BackendCall.isEnable ≤ 1 ∧
      (stage = .none ∨ stage = .opened → cs.countP BackendCall.isEnable = 0) := by
  induction h with
  | nil => exact ⟨Nat.zero_le 1, fun _ => rfl⟩
  | created => exact ⟨Nat.zero_le 1, fun _ => rfl⟩
  | _ => simp_all [List.countP_append, List.countP_singleton, BackendCall.isEnable]

namespace ProgramRun

variable {r r' : ProgramRun F}

/-- The calls made so far and the fields that remember them, by the position of the thread. -/
def BackendOk (r : ProgramRun F) : Prop := match r.pc with
  | .unstarted | .factory =>
    Session .none r.calls ∧ r.backend = false ∧ r.torqueEnabled = false
  | .prepare | .capture _ | .stopCheck _ | .enable _ =>
    Session .opened r.calls ∧ r.backend = true ∧ r.torqueEnabled = false
  | .fault _ | .hold _ =>
    Session .none r.calls ∧ r.backend = false ∨
      (Session .opened r.calls ∨ Session .enabled r.calls) ∧ r.backend = true ∧
        (r.torqueEnabled = true → Session .enabled r.calls)
  | .holdSend _ _ => Session .enabled r.calls
  | .close _ => Session .opened r.calls ∨ Session .enabled r.calls
  | .finish _ | .signal _ | .report _ | .done =>
    Session .none r.calls ∨ Session .closed r.calls
  | _ => Session .enabled r.calls ∧ r.backend = true ∧ r.torqueEnabled = true

theorem backendOk_init (cfg : RunConfig F) (now : F) : (init cfg now).BackendOk :=
  ⟨.nil, rfl, rfl⟩

variable [PyFloat F] [FloatTrunc F]

omit [PyFloat F] [FloatTrunc F] in
/-- In the `try` block the call about to be made is one the session allows. -/
theorem BackendOk.failing (h : r.BackendOk) (htry : r.pc.stage.inTry = true)
    {calls : List (BackendCall F)}
    (hcalls : calls = [] ∨ ∃ c, r.pc.call? = some c ∧ calls = [c]) :
    Session .none (r.calls ++ calls) ∧ r.backend = false ∨
      (Session .opened (r.calls ++ calls) ∨ Session .enabled (r.calls ++ calls)) ∧
        r.backend = true ∧ (r.torqueEnabled = true → Session .enabled (r.calls ++ calls)) := by
  unfold BackendOk at h
  rcases hcalls with rfl | ⟨c, hc, rfl⟩
  · rw [List.append_nil]
    cases hpc : r.pc <;> rw [hpc] at h htry <;> simp_all [Pc.stage, Stage.inTry]
  · cases hpc : r.pc <;> rw [hpc] at h htry hc <;> cases hc
    · exact .inr ⟨.inl h.1.prepared, h.2.1, fun ht => by simp [h.2.2] at ht⟩
    · exact .inr ⟨.inr h.1.enabled, h.2.1, fun _ => h.1.enabled⟩
    · exact .inr ⟨.inr h.1.read, h.2.1, fun _ => h.1.read⟩
    · exact .inr ⟨.inr h.1.sent, h.2.1, fun _ => h.1.sent⟩
    · exact .inr ⟨.inr h.1.sent, h.2.1, fun _ => h.1.sent⟩

theorem BackendOk.executed (h : r.BackendOk) (hx : Executed r r') : r'.BackendOk := by
  cases hx with
  | fail htry hcalls => exact h.failing htry hcalls
  | create hpc =>
    unfold BackendOk at h
    rw [hpc] at h
    rw [BackendOk]
    simp only [call, h.1.eq_nil]
    exact ⟨.created, trivial, h.2.2⟩
  | prepare hpc => rw [BackendOk, hpc] at h; exact ⟨h.1.prepared, h.2⟩
  | enable hpc => rw [BackendOk, hpc] at h; exact ⟨h.1.enabled, h.2.1, rfl⟩
  | read hpc => rw [BackendOk, hpc] at h; exact ⟨h.1.read, h.2⟩
  | send hpc => rw [BackendOk, hpc] at h; exact ⟨h.1.sent, h.2⟩
  | sendLast hpc => rw [BackendOk, hpc] at h; exact ⟨h.1.sent, h.2⟩
  | holdRead hpc hbackend htorque | holdFail hpc hbackend htorque =>
    rw [BackendOk, hpc] at h
    rcases h with ⟨-, hb⟩ | ⟨-, -, henabled⟩
    · rw [hb] at hbackend
      cases hbackend
    · first
        | exact (henabled htorque).read
        | exact .inr (henabled htorque).read
  | holdSend hpc => rw [BackendOk, hpc] at h; exact .inr h.sent
  | close hpc =>
    rw [BackendOk, hpc] at h
    rcases h with h | h
    · exact .inr h.closedOpened
    · exact .inr h.closedEnabled
  | _ => simp_all [BackendOk, emit, publish]

theorem BackendOk.step [FloatRepr F] [Sha256] (h : r.BackendOk) (hstage : r.StageOk)
    {label : Label F} (hs : r.step label = some r') : r'.BackendOk := by
  refine step_induction hs h (fun _ _ _ _ => h) (fun hstart => ?_) (fun _ _ => h) (fun _ => h) ?_
    h.executed
  · obtain ⟨hpc, rfl⟩ := hstage.idle_of_start hstart
    rw [BackendOk, hpc] at h
    exact h
  · unfold ProgramRun.connectionLost
    split <;> exact h

end ProgramRun

/-! ## The cursor -/

section Cursor

variable [PyFloat F] [FloatTrunc F]

/-- Every later reading of the clock gives a cursor from `c` on. -/
def Ahead (started clock : F) (c : ℤ) : Prop :=
  ∀ now n, PyFloat.le clock now = true → cursorAt started now = .ok n → c ≤ n

theorem cursorAt_nonneg {started now : F} {n : ℤ} (h : cursorAt started now = .ok n) : 0 ≤ n := by
  unfold cursorAt at h
  obtain ⟨us, -, h⟩ := bind_eq_ok.1 h
  exact Except.ok.inj h ▸ le_max_left 0 us

variable [LawfulClock F] {started clock now : F} {c n : ℤ}

theorem Ahead.later (h : Ahead started clock c) (hle : PyFloat.le clock now = true) :
    Ahead started now c := by
  intro now' n hnow hn
  exact h now' n (LawfulClock.le_trans _ _ _ hle hnow) hn

theorem ahead_of_cursorAt (h : cursorAt started now = .ok n) : Ahead started now n := by
  intro now' n' hnow hn
  exact LawfulClock.cursor_mono _ _ _ _ _ hnow h hn

namespace ProgramRun

variable {r r' : ProgramRun F}

/-- The published cursor is behind the one of the tick going on, which is behind all later ones. -/
def CursorOk (r : ProgramRun F) : Prop := match r.pc with
  | .tick l | .pace l => Ahead l.started r.clock r.cursorUs
  | .heartbeatCheck l now | .locate l now =>
    ∀ n, cursorAt l.started now = .ok n → r.cursorUs ≤ n ∧ Ahead l.started r.clock n
  | .read t | .send t _ | .publish t _ =>
    r.cursorUs ≤ t.cursorUs ∧ Ahead t.started r.clock t.cursorUs
  | .telemetry t _ _ => Ahead t.started r.clock r.cursorUs
  | .sendLast _ tUs | .publishLast tUs => r.finalReceived = true ∧ r.acceptedUntilUs = tUs
  | .fault _ | .hold _ | .holdSend _ _ | .close _ | .finish _ | .signal _ | .report _ | .done =>
    True
  | _ => r.cursorUs = 0

omit [LawfulClock F] in
theorem cursorOk_init (cfg : RunConfig F) (now : F) : (init cfg now).CursorOk := rfl

theorem CursorOk.executed (h : r.CursorOk) (hx : Executed r r') : r'.CursorOk := by
  unfold CursorOk at h
  cases hx with
  | begin hpc =>
    rw [hpc] at h
    intro now n _ hn
    exact h ▸ cursorAt_nonneg hn
  | tick hpc hclock =>
    rw [hpc] at h
    intro n hn
    exact ⟨h _ n hclock hn, ahead_of_cursorAt hn⟩
  | locate hpc hcursor =>
    rw [hpc] at h
    exact h _ hcursor
  | publish hpc =>
    rw [hpc] at h
    exact h.2
  | pace hpc hclock =>
    rw [hpc] at h
    exact h.later hclock
  | reachEnd hpc hcursor hfinal hlast =>
    refine ⟨hfinal, ?_⟩
    unfold acceptedUntilUs
    rw [hlast]
  | telemetry hpc =>
    rw [hpc] at h
    exact h
  | _ => simp_all [CursorOk, call, emit, acceptedUntilUs]

theorem CursorOk.heartbeat {now : F} (h : r.CursorOk) (hclock : PyFloat.le r.clock now = true) :
    (r.heartbeat now).CursorOk := by
  unfold CursorOk ProgramRun.heartbeat at *
  cases hpc : r.pc <;> rw [hpc] at h <;> simp only
  case tick | pace | telemetry => exact h.later hclock
  case heartbeatCheck | locate => exact fun n hn => ⟨(h n hn).1, (h n hn).2.later hclock⟩
  case read | send | publish => exact ⟨h.1, h.2.later hclock⟩
  all_goals exact h

omit [LawfulClock F] in
theorem CursorOk.extend {c : Chunk F} {message : Str} {receipts : Table ℤ (Str × Receipt)}
    (h : r.CursorOk) (hc : r.ChunkOk c) :
    { r.extend c with message := message, chunkReceipts := receipts }.CursorOk := by
  unfold CursorOk ProgramRun.extend at *
  cases hpc : r.pc <;> rw [hpc] at h <;> simp only
  case sendLast | publishLast =>
    rw [hc.not_final] at h
    cases h.1
  all_goals exact h

theorem CursorOk.step [FloatRepr F] [Sha256] (h : r.CursorOk) (hstage : r.StageOk)
    {label : Label F} (hs : r.step label = some r') : r'.CursorOk := by
  refine step_induction hs h (fun _ _ _ => h.extend) (fun hstart => ?_) (fun _ => h.heartbeat)
    (fun _ => h) ?_ h.executed
  · obtain ⟨hpc, rfl⟩ := hstage.idle_of_start hstart
    rw [CursorOk, hpc] at h
    exact h
  · unfold ProgramRun.connectionLost
    split <;> exact h

end ProgramRun

end Cursor

end RemoteRobot.Stream
