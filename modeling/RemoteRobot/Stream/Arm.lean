import RemoteRobot.Stream.Backend
import RemoteRobot.Stream.Stopping

/-!
# The server and its arm

The controller of `robot_server.py` with an `SO101Backend` for each of its runs, all of them on the
same motors.  A thread's calls of its backend are answered by `Follower.act`; everything else is a
step of the controller.

A motor with torque follows a goal that a run wrote, never one that an earlier process left in it
(`reconnect`); and it has torque only while a run that asked for it still has its backend, unless a
`disable_torque` of a close failed (`released`).
-/

namespace RemoteRobot.Stream

open Py Except

variable {F σ : Type}

/-! ## Calls of a run -/

/-- The thread has what `prepare_disabled` returned, and does not run yet. -/
def Pc.isPrepared : Pc F → Bool
  | .capture _ | .stopCheck _ | .enable _ | .setRunning => true
  | _ => false

namespace ProgramRun

/-- The call of the backend the thread of a run is about to make. -/
def nextCall (r : ProgramRun F) : Option (BackendCall F) := match r.pc with
  | .factory => some .created
  | .hold _ => if r.backend = true ∧ r.torqueEnabled = true then some .readQ else none
  | .holdSend _ m => some (.sendQ .hold m)
  | .close _ => some .close
  | pc => pc.call?

/-- The run asked for torque and did not close its backend. -/
def Energized (r : ProgramRun F) : Prop := (∃ m, .enableAtCurrent m ∈ r.calls) ∧ .close ∉ r.calls

end ProgramRun

theorem startPose_poseArray [PyFloat F] {q m : Pose F} (h : startPose (poseArray q) = some m) :
    m = q := by
  unfold startPose poseArray at h
  split_ifs at h
  cases h
  funext j
  cases j <;> rfl

/-! ## The system -/

/-- The server, whether the backend of each run has its robot, and the motors. -/
structure Arm (F σ : Type) where
  controller : ProgramController F
  connected : ℕ → Bool := fun _ => false
  motors : σ

namespace Arm

/-- Who acts: the server, by anything but an answer of a backend, or the backend of a run, by the
answer to its next call. -/
inductive Label (F : Type) where
  | server (l : ProgramController.Label F)
  | backend (j : ℕ)

/-- The next call of a run. -/
def nextCall (s : Arm F σ) (j : ℕ) : Option (BackendCall F) :=
  s.controller.runs[j]?.bind ProgramRun.nextCall

/-- An answer of a backend. -/
def isAnswer (s : Arm F σ) : ProgramController.Label F → Bool
  | .exec j _ => (s.nextCall j).isSome
  | _ => false

variable [PyFloat F] [FloatTrunc F] [FloatRepr F] [Sha256]

def step (f : Follower F σ) (s : Arm F σ) : Label F → Option (Arm F σ)
  | .server l =>
    if s.isAnswer l then none else (s.controller.step l).map fun controller => { s with controller }
  | .backend j => do
    let call ← s.nextCall j
    let (act, rig) := f.act call ⟨s.connected j, s.motors⟩
    let controller ← s.controller.step (.exec j act)
    some ⟨controller, Function.update s.connected j rig.connected, rig.motors⟩

/-- The server before its first connection, the motors as they are. -/
def start (settings : Settings F) (m₀ : σ) : Arm F σ := { controller := .init settings, motors := m₀ }

end Arm

/-! ## One step -/

namespace ProgramRun

variable {r r' : ProgramRun F} {call : BackendCall F} {act : Act F} [PyFloat F] [FloatTrunc F]

omit [PyFloat F] [FloatTrunc F] in
theorem nextCall_of_call (h : r.pc.call? = some call) : r.nextCall = some call := by
  unfold nextCall
  cases hpc : r.pc <;> rw [hpc] at h <;> first | exact h | cases h

/-- Without its backend a thread goes on from the prepared pose only. -/
theorem still_of_executed (hx : Executed r r') (hcall : r.nextCall = none) :
    r'.calls = r.calls ∧ (r'.pc.isPrepared = true →
      (∃ a m, r.pc = .capture a ∧ startPose a = some m ∧ r'.pc = .stopCheck m) ∨
        ∃ m, r.pc = .stopCheck m ∧ r'.pc = .enable m) := by
  cases hx with
  | capture hpc ha => exact ⟨rfl, fun _ => .inl ⟨_, _, hpc, ha, rfl⟩⟩
  | pass hpc => exact ⟨rfl, fun _ => .inr ⟨_, hpc, rfl⟩⟩
  | @fail e calls now htry hcalls =>
    refine ⟨?_, fun hp => (by cases hp)⟩
    rcases hcalls with rfl | ⟨c, hc, -⟩
    · exact List.append_nil _
    · rw [nextCall_of_call hc] at hcall
      cases hcall
  | holdRead hpc hbackend htorque | holdFail hpc hbackend htorque =>
    simp [nextCall, hpc, hbackend, htorque] at hcall
  | create hpc | prepare hpc | enable hpc | read hpc | send hpc | sendLast hpc | holdSend hpc
  | close hpc => simp [nextCall, hpc, Pc.call?] at hcall
  | publish => exact ⟨rfl, fun hp => (by cases hp)⟩
  | _ => exact ⟨rfl, fun hp => (by cases hp)⟩

/-- A step of a run that is no answer of its backend. -/
theorem still_of_step [FloatRepr F] [Sha256] {label : Label F} (hs : r.step label = some r')
    (hlabel : ∀ act, label = .exec act → r.nextCall = none) :
    r'.calls = r.calls ∧ (r'.pc.isPrepared = true → r'.pc = r.pc ∨
      (∃ a m, r.pc = .capture a ∧ startPose a = some m ∧ r'.pc = .stopCheck m) ∨
        ∃ m, r.pc = .stopCheck m ∧ r'.pc = .enable m) := by
  by_cases hexec : ∃ act, label = .exec act
  · obtain ⟨act, rfl⟩ := hexec
    obtain ⟨hcalls, hpc⟩ := still_of_executed (exec_moved hs) (hlabel act rfl)
    exact ⟨hcalls, fun hp => .inr (hpc hp)⟩
  · obtain ⟨hcalls, hpc⟩ := calls_of_call hs fun act hact => hexec ⟨act, hact⟩
    refine ⟨hcalls, fun hp => .inl (hpc.resolve_right fun hstart => ?_)⟩
    obtain ⟨-, -, -, -, rfl⟩ := start_eq_ok.1 hstart
    cases hp

/-- The answer of a backend: the call is made, and the thread is prepared by an array or under
torque. -/
theorem exec_of_call (hcall : r.nextCall = some call) (hs : r.exec act = some r')
    (hcreated : call = .created → act = .returned) :
    r'.calls = r.calls ++ [call] ∧ (r'.pc.isPrepared = true →
      (call = .prepareDisabled ∧ ∃ a, act = .array a ∧ r'.pc = .capture a) ∨
        ∃ q, call = .enableAtCurrent q ∧ act = .returned ∧ r'.pc = .setRunning) := by
  unfold nextCall at hcall
  cases hpc : r.pc <;> rw [hpc] at hcall
  case factory =>
    cases hcall
    obtain rfl := hcreated rfl
    unfold exec at hs
    rw [hpc] at hs
    cases hs
    exact ⟨rfl, fun hp => (by cases hp)⟩
  case prepare =>
    cases hcall
    unfold exec at hs
    rw [hpc] at hs
    cases act <;> cases hs
    · exact ⟨rfl, fun _ => .inl ⟨rfl, _, rfl, rfl⟩⟩
    · exact ⟨rfl, fun hp => (by cases hp)⟩
  case enable m =>
    cases hcall
    unfold exec at hs
    rw [hpc] at hs
    cases act <;> cases hs
    · exact ⟨rfl, fun _ => .inr ⟨m, rfl, rfl, rfl⟩⟩
    · exact ⟨rfl, fun hp => (by cases hp)⟩
  case read t =>
    cases hcall
    unfold exec at hs
    rw [hpc] at hs
    cases act <;> cases hs
    · unfold supervise
      simp only
      split <;> exact ⟨rfl, fun hp => (by cases hp)⟩
    · exact ⟨rfl, fun hp => (by cases hp)⟩
  case hold o =>
    simp only at hcall
    split_ifs at hcall with hheld
    cases hcall
    unfold exec at hs
    rw [hpc] at hs
    cases act <;> simp [hheld] at hs <;> cases hs <;> exact ⟨rfl, fun hp => (by cases hp)⟩
  case send | sendLast | holdSend | close =>
    cases hcall
    unfold exec at hs
    rw [hpc] at hs
    cases act <;> cases hs <;> exact ⟨rfl, fun hp => (by cases hp)⟩
  all_goals cases hcall

omit [FloatTrunc F] in
/-- A thread before a call of its backend has one, or is about to get it. -/
theorem RunOk.holds_of_nextCall (h : r.RunOk) (hcall : r.nextCall = some call) :
    r.HoldsBackend := by
  have hopen : Session .opened r.calls ∨ Session .enabled r.calls → r.HoldsBackend := by
    rintro (hs | hs) <;> exact .inr ⟨hs.created_mem (by decide), hs.close_not_mem (by decide)⟩
  have hbackend := h.backend
  unfold BackendOk at hbackend
  unfold nextCall at hcall
  cases hpc : r.pc <;> rw [hpc] at hcall hbackend
  case factory => exact .inl hpc
  case prepare | enable => exact hopen (.inl hbackend.1)
  case read | send | sendLast => exact hopen (.inr hbackend.1)
  case holdSend => exact hopen (.inr hbackend)
  case close => exact hopen hbackend
  case hold =>
    simp only at hcall
    split_ifs at hcall with hheld
    rcases hbackend with ⟨-, hno⟩ | ⟨hsession, -, -⟩
    · rw [hheld.1] at hno
      cases hno
    · exact hopen hsession
  all_goals cases hcall

omit [FloatTrunc F] in
theorem RunOk.holds_of_prepared (h : r.RunOk) (hp : r.pc.isPrepared = true) : r.HoldsBackend := by
  have hbackend := h.backend
  unfold BackendOk at hbackend
  cases hpc : r.pc <;> rw [hpc] at hp hbackend <;> cases hp <;>
    exact .inr ⟨hbackend.1.created_mem (by decide), hbackend.1.close_not_mem (by decide)⟩

omit [FloatTrunc F] in
/-- The run whose backend answers has not closed it. -/
theorem RunOk.close_not_mem (h : r.RunOk) (hcall : r.nextCall = some call) : .close ∉ r.calls := by
  obtain hpc | ⟨-, hclose⟩ := h.holds_of_nextCall hcall
  · have hbackend := h.backend
    unfold BackendOk at hbackend
    rw [hpc] at hbackend
    rw [hbackend.1.eq_nil]
    exact List.not_mem_nil
  · exact hclose

omit [FloatTrunc F] in
/-- Before torque is asked for it was not asked for. -/
theorem RunOk.enable_not_mem (h : r.RunOk) (hcall : r.nextCall = some call)
    (hbefore : call = .created ∨ call = .prepareDisabled) (m : Pose F) :
    .enableAtCurrent m ∉ r.calls := by
  have hcount : r.calls.countP BackendCall.isEnable = 0 := by
    have hbackend := h.backend
    unfold BackendOk at hbackend
    unfold nextCall at hcall
    cases hpc : r.pc <;> rw [hpc] at hcall hbackend
    case factory => exact hbackend.1.countP_isEnable.2 (.inl rfl)
    case prepare => exact hbackend.1.countP_isEnable.2 (.inr rfl)
    case hold =>
      simp only at hcall
      split_ifs at hcall
      cases hcall
      rcases hbefore with hc | hc <;> cases hc
    all_goals
      cases hcall
      try rcases hbefore with hc | hc <;> cases hc
  intro hm
  exact absurd (List.countP_eq_zero.1 hcount _ hm) (by simp [BackendCall.isEnable])

omit [PyFloat F] [FloatTrunc F] in
theorem pc_of_enable {m : Pose F} (hcall : r.nextCall = some (.enableAtCurrent m)) :
    r.pc = .enable m := by
  unfold nextCall at hcall
  cases hpc : r.pc <;> rw [hpc] at hcall
  case enable => cases hcall; rfl
  case hold =>
    simp only at hcall
    split_ifs at hcall
    cases hcall
  all_goals cases hcall

omit [PyFloat F] [FloatTrunc F] in
theorem BackendOk.exists_session (h : r.BackendOk) : ∃ stage, Session stage r.calls := by
  unfold BackendOk at h
  cases hpc : r.pc <;> rw [hpc] at h
  case fault | hold => obtain ⟨h, -⟩ | ⟨h | h, -⟩ := h <;> exact ⟨_, h⟩
  case close | finish | signal | report | done => rcases h with h | h <;> exact ⟨_, h⟩
  case holdSend => exact ⟨_, h⟩
  all_goals exact ⟨_, h.1⟩

omit [FloatTrunc F] in
theorem RunOk.holds_of_energized (h : r.RunOk) (he : r.Energized) : r.HoldsBackend := by
  obtain ⟨stage, hsession⟩ := h.backend.exists_session
  obtain ⟨⟨m, hm⟩, hclose⟩ := he
  refine .inr ⟨hsession.created_mem ?_, hclose⟩
  rintro rfl
  rw [hsession.eq_nil] at hm
  cases hm

end ProgramRun

namespace Arm

variable {f : Follower F σ} {v : Servos F σ} {m₀ : σ} {s s' : Arm F σ} {settings : Settings F}
variable [PyFloat F] [FloatTrunc F] [FloatRepr F] [Sha256]

open ProgramController (Moved moved_of_step onRun_eq_some controllerOk_init)

omit [PyFloat F] [FloatTrunc F] [FloatRepr F] [Sha256] in
/-- The runs behind a step of one of them. -/
theorem set_cases {rs : List (ProgramRun F)} {j i : ℕ} {run run' run₁ : ProgramRun F}
    (hrun : rs[j]? = some run) (h : (rs.set j run')[i]? = some run₁) :
    i = j ∧ run₁ = run' ∨ i ≠ j ∧ rs[i]? = some run₁ := by
  by_cases hi : i = j
  · subst hi
    rw [List.getElem?_set_self (List.getElem?_eq_some_iff.1 hrun).1] at h
    exact .inl ⟨rfl, (Option.some.inj h).symm⟩
  · rw [List.getElem?_set_ne fun hk => hi hk.symm] at h
    exact .inr ⟨hi, h⟩

theorem origin_of_onRun {c c' : ProgramController F} {j k : ℕ} {label : ProgramRun.Label F}
    {run' : ProgramRun F} (h : c.onRun k label = some c') (hrun' : c'.runs[j]? = some run') :
    ∃ run, c.runs[j]? = some run ∧
      (run' = run ∨ j = k ∧ run.step label = some run') := by
  obtain ⟨run, run₁, hrun, hstep, rfl⟩ := onRun_eq_some.1 h
  obtain ⟨rfl, rfl⟩ | ⟨-, hrun'⟩ := set_cases hrun hrun'
  · exact ⟨run, hrun, .inr ⟨rfl, hstep⟩⟩
  · exact ⟨run', hrun', .inl rfl⟩

/-- A run as it was, or behind a step that is no answer of its backend. -/
def Carried (s : Arm F σ) (j : ℕ) (run' : ProgramRun F) : Prop :=
  ∃ run, s.controller.runs[j]? = some run ∧ (run' = run ∨ ∃ label, run.step label = some run' ∧
    ∀ act, label = .exec act → run.nextCall = none)

theorem carried_self {j : ℕ} {run : ProgramRun F} (h : s.controller.runs[j]? = some run) :
    s.Carried j run :=
  ⟨run, h, .inl rfl⟩

theorem carried_of_onRun {c : ProgramController F} {j k : ℕ} {label : ProgramRun.Label F}
    {run' : ProgramRun F} (h : s.controller.onRun k label = some c)
    (hlabel : ∀ act, label ≠ .exec act) (hrun' : c.runs[j]? = some run') : s.Carried j run' := by
  obtain ⟨run, hrun, hor⟩ := origin_of_onRun h hrun'
  exact ⟨run, hrun, hor.imp_right fun hs => ⟨label, hs.2, fun act ha => absurd ha (hlabel act)⟩⟩

theorem carried_of_forward {c : ProgramController F} {i j : ℕ} {label : ProgramRun.Label F}
    {run' : ProgramRun F} (h : s.controller.forward i label = some c)
    (hlabel : ∀ act, label ≠ .exec act) (hrun' : c.runs[j]? = some run') : s.Carried j run' := by
  unfold ProgramController.forward at h
  split at h
  · obtain rfl := Option.some.inj h
    exact carried_self hrun'
  · exact carried_of_onRun h hlabel hrun'

theorem carried_of_emergencyStop {c : ProgramController F} {reason : Str} {j : ℕ}
    {run' : ProgramRun F} (h : s.controller.emergencyStop reason = some c)
    (hrun' : c.runs[j]? = some run') : s.Carried j run' := by
  unfold ProgramController.emergencyStop at h
  split at h
  · obtain rfl := Option.some.inj h
    exact carried_self hrun'
  · exact carried_of_onRun h (fun _ ha => by cases ha) hrun'

omit [PyFloat F] [FloatTrunc F] [FloatRepr F] [Sha256] in
theorem runs_openMessage (c : ProgramController F) (i : ℕ) (request : OpenRequest) :
    (c.openMessage i request).runs = c.runs := by
  unfold ProgramController.openMessage
  split
  · rfl
  · split <;> rfl

/-- What becomes of the runs in a step of the server. -/
theorem carried_of_server {l : ProgramController.Label F} {c : ProgramController F}
    (hanswer : s.isAnswer l = false) (h : s.controller.step l = some c) {j : ℕ}
    {run' : ProgramRun F} (hrun' : c.runs[j]? = some run') :
    s.Carried j run' ∨ s.controller.runs.length ≤ j ∧ ∃ cfg now, run' = .init cfg now := by
  cases l with
  | message i request =>
    refine .inl ?_
    unfold ProgramController.step at h
    simp only at h
    split_ifs at h
    cases request <;> simp only [ProgramController.handle] at h
    case openRun request =>
      split_ifs at h
      obtain rfl := Option.some.inj h
      rw [runs_openMessage] at hrun'
      exact carried_self hrun'
    case emergencyStop =>
      split_ifs at h
      exact carried_of_emergencyStop h hrun'
    all_goals exact carried_of_forward h (fun _ ha => by cases ha) hrun'
  | create now =>
    obtain ⟨⟨i, cfg⟩, hopening, rfl⟩ := Option.map_eq_some_iff.1 h
    obtain ⟨run, hrun, -⟩ | ⟨i', cfg', now', -, -, rfl, rfl⟩ :=
      (Moved.created hopening now).origin hrun'
    · have happend : (s.controller.runs ++ [ProgramRun.init cfg now])[j]? = some run' := hrun'
      rw [List.getElem?_append_left (List.getElem?_eq_some_iff.1 hrun).1] at happend
      exact .inl (carried_self happend)
    · exact .inr ⟨le_rfl, cfg', now', rfl⟩
  | disconnect i =>
    unfold ProgramController.step at h
    simp only at h
    split_ifs at h
    obtain ⟨c', hc', rfl⟩ := Option.map_eq_some_iff.1 h
    exact .inl (carried_of_forward hc' (fun _ ha => by cases ha) hrun')
  | shutdown =>
    unfold ProgramController.step at h
    simp only at h
    split_ifs at h
    exact .inl (carried_of_emergencyStop h hrun')
  | exec k act =>
    obtain ⟨run, hrun, hor⟩ := origin_of_onRun h hrun'
    refine .inl ⟨run, hrun, hor.imp_right ?_⟩
    rintro ⟨rfl, hstep⟩
    refine ⟨_, hstep, fun _ _ => ?_⟩
    simpa [isAnswer, nextCall, hrun] using hanswer

/-- A step of the server leaves every backend and the motors, and no run gets an answer. -/
structure Served (s s' : Arm F σ) : Prop where
  moved : Moved s.controller s'.controller
  connected : s'.connected = s.connected
  motors : s'.motors = s.motors
  runs : ∀ j run', s'.controller.runs[j]? = some run' →
    s.Carried j run' ∨ s.controller.runs.length ≤ j ∧ ∃ cfg now, run' = .init cfg now

/-- The backend of a run answers its next call. -/
structure Answered (f : Follower F σ) (s : Arm F σ) (j : ℕ) (run : ProgramRun F)
    (call : BackendCall F) (run' : ProgramRun F) (s' : Arm F σ) : Prop where
  before : s.controller.runs[j]? = some run
  next : run.nextCall = some call
  exec : run.exec (f.act call ⟨s.connected j, s.motors⟩).1 = some run'
  controller : s'.controller = { s.controller with runs := s.controller.runs.set j run' }
  connected : s'.connected =
    Function.update s.connected j (f.act call ⟨s.connected j, s.motors⟩).2.connected
  motors : s'.motors = (f.act call ⟨s.connected j, s.motors⟩).2.motors

/-- A step is one of the server or an answer. -/
theorem step_cases {l : Label F} (hs : s.step f l = some s') : Served s s' ∨
    ∃ j run call run', l = .backend j ∧ Answered f s j run call run' s' := by
  cases l with
  | server l =>
    have hs : (if s.isAnswer l then none else
      (s.controller.step l).map fun controller => { s with controller }) = some s' := hs
    split_ifs at hs with hanswer
    obtain ⟨c, hc, rfl⟩ := Option.map_eq_some_iff.1 hs
    exact .inl ⟨moved_of_step hc, rfl, rfl, fun j run' hrun' =>
      carried_of_server (Bool.eq_false_iff.2 hanswer) hc hrun'⟩
  | backend j =>
    obtain ⟨call, hcall, hs⟩ := Option.bind_eq_some_iff.1 hs
    obtain ⟨c, hc, hs⟩ := Option.bind_eq_some_iff.1 hs
    obtain ⟨run, hrun, hnext⟩ := Option.bind_eq_some_iff.1 hcall
    obtain ⟨run₁, run', hrun₁, hstep, rfl⟩ := onRun_eq_some.1 hc
    obtain rfl : run₁ = run := Option.some.inj (hrun₁.symm.trans hrun)
    obtain rfl := Option.some.inj hs
    exact .inr ⟨j, run₁, call, run', rfl, hrun, hnext, hstep, rfl, rfl, rfl⟩

/-! ### Steps of the server -/

/-- The calls of a run stay, and a step of the server adds none. -/
theorem Carried.calls {j : ℕ} {run' : ProgramRun F} (h : s.Carried j run') :
    ∃ run, s.controller.runs[j]? = some run ∧ run'.calls = run.calls := by
  obtain ⟨run, hrun, rfl | ⟨label, hstep, hlabel⟩⟩ := h
  · exact ⟨run', hrun, rfl⟩
  · exact ⟨run, hrun, (ProgramRun.still_of_step hstep hlabel).1⟩

/-- Every run is still there, with its calls. -/
theorem Served.kept (h : Served s s') {i : ℕ} {run : ProgramRun F}
    (hrun : s.controller.runs[i]? = some run) :
    ∃ run', s'.controller.runs[i]? = some run' ∧ run'.calls = run.calls := by
  obtain ⟨run', hrun', -⟩ := h.moved.run hrun
  obtain hcarried | ⟨hlen, -⟩ := h.runs i run' hrun'
  · obtain ⟨run₁, hrun₁, hcalls⟩ := hcarried.calls
    obtain rfl : run₁ = run := Option.some.inj (hrun₁.symm.trans hrun)
    exact ⟨run', hrun', hcalls⟩
  · exact absurd (List.getElem?_eq_some_iff.1 hrun).1 (not_lt.2 hlen)

theorem Served.kept_mem (h : Served s s') {run : ProgramRun F} (hmem : run ∈ s.controller.runs) :
    ∃ run' ∈ s'.controller.runs, run'.calls = run.calls := by
  obtain ⟨i, hrun⟩ := List.getElem?_of_mem hmem
  obtain ⟨run', hrun', hcalls⟩ := h.kept hrun
  exact ⟨run', List.mem_of_getElem? hrun', hcalls⟩

/-! ### Answers -/

namespace Answered

variable {j : ℕ} {run run' : ProgramRun F} {call : BackendCall F}

omit [FloatRepr F] [Sha256] in
theorem runs (h : Answered f s j run call run' s') :
    s'.controller.runs = s.controller.runs.set j run' := by rw [h.controller]

theorem moved (h : Answered f s j run call run' s') : Moved s.controller s'.controller := by
  rw [h.controller]
  exact .ran h.before (show run.step (.exec (f.act call ⟨s.connected j, s.motors⟩).1) = some run' from
    h.exec) s.controller.connections

omit [FloatRepr F] [Sha256] in
theorem calls (h : Answered f s j run call run' s') : run'.calls = run.calls ++ [call] :=
  (ProgramRun.exec_of_call h.next h.exec fun hc => by rw [hc]; rfl).1

omit [FloatRepr F] [Sha256] in
theorem self (h : Answered f s j run call run' s') : s'.controller.runs[j]? = some run' := by
  rw [h.runs]
  exact List.getElem?_set_self (List.getElem?_eq_some_iff.1 h.before).1

omit [FloatRepr F] [Sha256] in
theorem other (h : Answered f s j run call run' s') {i : ℕ} (hi : i ≠ j) :
    s'.controller.runs[i]? = s.controller.runs[i]? := by
  rw [h.runs]
  exact List.getElem?_set_ne fun hj => hi hj.symm

omit [FloatRepr F] [Sha256] in
theorem origin (h : Answered f s j run call run' s') {i : ℕ} {run₁ : ProgramRun F}
    (hrun₁ : s'.controller.runs[i]? = some run₁) :
    i = j ∧ run₁ = run' ∨ i ≠ j ∧ s.controller.runs[i]? = some run₁ :=
  set_cases h.before (h.runs ▸ hrun₁)

omit [FloatRepr F] [Sha256] in
/-- Every run but the one that got the answer is still there. -/
theorem kept_mem (h : Answered f s j run call run' s') {run₁ : ProgramRun F}
    (hmem : run₁ ∈ s.controller.runs) :
    run₁ = run ∨ run₁ ∈ s'.controller.runs := by
  obtain ⟨i, hrun₁⟩ := List.getElem?_of_mem hmem
  by_cases hi : i = j
  · subst hi
    exact .inl (Option.some.inj (hrun₁.symm.trans h.before))
  · exact .inr (List.mem_of_getElem? ((h.other hi).trans hrun₁))

omit [FloatRepr F] [Sha256] in
theorem connected_self (h : Answered f s j run call run' s') :
    s'.connected j = (f.act call ⟨s.connected j, s.motors⟩).2.connected := by
  rw [h.connected, Function.update_self]

omit [FloatRepr F] [Sha256] in
theorem connected_other (h : Answered f s j run call run' s') {i : ℕ} (hi : i ≠ j) :
    s'.connected i = s.connected i := by
  rw [h.connected, Function.update_of_ne hi]

end Answered

/-! ## The goals of the motors -/

/-- A motor has torque as it had at the start, with the goal it had then. -/
def Untouched (v : Servos F σ) (m₀ : σ) (s : Arm F σ) (j : Joint) : Prop :=
  v.torque m₀ j = true ∧ v.goal s.motors j = v.goal m₀ j

/-- The goal of a motor was written by a call of a run. -/
def Written (v : Servos F σ) (s : Arm F σ) (j : Joint) : Prop :=
  ∃ run ∈ s.controller.runs, ∃ call ∈ run.calls, ∃ q, BackendCall.goal? call = some q ∧
    v.goal s.motors j = some (q j)

/-- The motors are under torque at the goal a run asked for. -/
def Live (v : Servos F σ) (s : Arm F σ) (run : ProgramRun F) : Prop :=
  ∃ q, .enableAtCurrent q ∈ run.calls ∧ v.Aims s.motors q ∧ ∀ i, v.torque s.motors i = true

/-- Between `prepare_disabled` and the call for torque no motor has torque, and the goals are the
pose that was read; behind the call all have it. -/
def Ready (v : Servos F σ) (s : Arm F σ) (j : ℕ) (run : ProgramRun F) : Prop := match run.pc with
  | .capture a => s.connected j = true ∧ v.Limp s.motors ∧ ∃ q, a = poseArray q ∧ v.Aims s.motors q
  | .stopCheck q | .enable q => s.connected j = true ∧ v.Limp s.motors ∧ v.Aims s.motors q
  | .setRunning => s.connected j = true ∧ s.Live v run
  | _ => True

structure Inv (v : Servos F σ) (m₀ : σ) (s : Arm F σ) : Prop where
  controller : s.controller.ControllerOk
  goals : ∀ j, v.torque s.motors j = true → s.Untouched v m₀ j ∨ s.Written v j
  ready : ∀ (j : ℕ) (run : ProgramRun F), s.controller.runs[j]? = some run → s.Ready v j run

omit [PyFloat F] [FloatTrunc F] [FloatRepr F] [Sha256] in
theorem ready_of_not_prepared {j : ℕ} {run : ProgramRun F} (h : run.pc.isPrepared = false) :
    s.Ready v j run := by
  unfold Ready
  cases hpc : run.pc <;> rw [hpc] at h <;> trivial

theorem Carried.ready {j : ℕ} {run' : ProgramRun F} (h : s.Carried j run')
    (hready : ∀ run, s.controller.runs[j]? = some run → s.Ready v j run) :
    s.Ready v j run' := by
  obtain ⟨run, hrun, rfl | ⟨label, hstep, hlabel⟩⟩ := h
  · exact hready run' hrun
  · have hr := hready run hrun
    by_cases hp : run'.pc.isPrepared = true
    · obtain ⟨hcalls, hpc⟩ := ProgramRun.still_of_step hstep hlabel
      unfold Ready Live at hr ⊢
      obtain hpc | ⟨a, m, hpc, ha, hpc'⟩ | ⟨m, hpc, hpc'⟩ := hpc hp
      · rw [hpc, hcalls]
        exact hr
      · rw [hpc] at hr
        obtain ⟨hconnected, hlimp, q, rfl, haims⟩ := hr
        rw [hpc', startPose_poseArray ha]
        exact ⟨hconnected, hlimp, haims⟩
      · rw [hpc] at hr
        rw [hpc']
        exact hr
    · exact ready_of_not_prepared (Bool.eq_false_iff.2 hp)

theorem Inv.served (h : s.Inv v m₀) (hserved : Served s s') : s'.Inv v m₀ := by
  refine ⟨h.controller.moved hserved.moved, fun j hj => ?_, fun j run' hrun' => ?_⟩
  · rw [hserved.motors] at hj
    unfold Untouched Written
    rw [hserved.motors]
    refine (h.goals j hj).imp_right ?_
    rintro ⟨run, hmem, call, hcall, q, hq, hgoal⟩
    obtain ⟨run', hmem', hcalls⟩ := hserved.kept_mem hmem
    exact ⟨run', hmem', call, hcalls ▸ hcall, q, hq, hgoal⟩
  · have hready : s.Ready v j run' := by
      obtain hcarried | ⟨-, cfg, now, rfl⟩ := hserved.runs j run' hrun'
      · exact hcarried.ready fun run hrun => h.ready j run hrun
      · trivial
    unfold Ready Live at hready ⊢
    rw [hserved.connected, hserved.motors]
    exact hready

section Answer

variable {j : ℕ} {run run' : ProgramRun F} {call : BackendCall F}

omit [FloatRepr F] [Sha256] in
/-- The goals behind an answer. -/
theorem Inv.goals_answered (h : s.Inv v m₀) (hf : f.Lawful v)
    (ha : Answered f s j run call run' s') (i : Joint) (hi : v.torque s'.motors i = true) :
    s'.Untouched v m₀ i ∨ s'.Written v i := by
  have hmem : run' ∈ s'.controller.runs := List.mem_of_getElem? ha.self
  rw [ha.motors] at hi
  unfold Untouched Written
  rw [ha.motors]
  obtain ⟨htorque, hgoal⟩ | ⟨q, hq, hgoal⟩ := hf.act_energized hi
  · refine (h.goals i htorque).imp (fun hu => ⟨hu.1, hgoal.trans hu.2⟩) ?_
    rintro ⟨run₁, hmem₁, call₁, hcall₁, q, hq, hgoal₁⟩
    obtain rfl | hmem₁ := ha.kept_mem hmem₁
    · exact ⟨run', hmem, call₁, by rw [ha.calls]; exact List.mem_append_left _ hcall₁, q, hq,
        hgoal.trans hgoal₁⟩
    · exact ⟨run₁, hmem₁, call₁, hcall₁, q, hq, hgoal.trans hgoal₁⟩
  · exact .inr ⟨run', hmem, call, by rw [ha.calls]; simp, q, hq, hgoal⟩

omit [FloatRepr F] [Sha256] in
/-- The run that got the answer. -/
theorem ready_answered (hf : f.Lawful v) (ha : Answered f s j run call run' s') :
    s'.Ready v j run' := by
  by_cases hp : run'.pc.isPrepared = true
  · obtain ⟨rfl, a, hact, hpc⟩ | ⟨q, rfl, hact, hpc⟩ :=
      (ProgramRun.exec_of_call ha.next ha.exec fun hc => by rw [hc]; rfl).2 hp
    · obtain ⟨hconnected, hlimp, hq⟩ := hf.act_prepared hact
      unfold Ready
      rw [hpc, ha.connected_self, ha.motors]
      exact ⟨hconnected, hlimp, hq⟩
    · obtain ⟨hconnected, haims, htorque⟩ := hf.act_enabled hact
      unfold Ready Live
      rw [hpc, ha.connected_self, ha.motors]
      exact ⟨hconnected, q, by rw [ha.calls]; simp, haims, htorque⟩
  · exact ready_of_not_prepared (Bool.eq_false_iff.2 hp)

theorem Inv.answered (h : s.Inv v m₀) (hf : f.Lawful v) (ha : Answered f s j run call run' s') :
    s'.Inv v m₀ := by
  refine ⟨h.controller.moved ha.moved, h.goals_answered hf ha, fun i run₁ hrun₁ => ?_⟩
  obtain ⟨rfl, rfl⟩ | ⟨hne, hrun₁⟩ := ha.origin hrun₁
  · exact ready_answered hf ha
  · refine ready_of_not_prepared (Bool.eq_false_iff.2 fun hp => hne ?_)
    -- two runs would have a backend
    have hi := h.controller.holder_active hrun₁ ((h.controller.runs i _ hrun₁).holds_of_prepared hp)
    have hj := h.controller.holder_active ha.before
      ((h.controller.runs j _ ha.before).holds_of_nextCall ha.next)
    exact Option.some.inj (hi.symm.trans hj)

end Answer

theorem Inv.step (h : s.Inv v m₀) (hf : f.Lawful v) {l : Label F} (hs : s.step f l = some s') :
    s'.Inv v m₀ := by
  obtain hserved | ⟨j, run, call, run', -, ha⟩ := step_cases hs
  · exact h.served hserved
  · exact h.answered hf ha

omit [FloatTrunc F] [FloatRepr F] [Sha256] in
theorem inv_start (v : Servos F σ) (settings : Settings F) (m₀ : σ) : (start settings m₀).Inv v m₀ :=
  ⟨controllerOk_init settings, fun _ hj => .inl ⟨hj, rfl⟩, fun _ _ h => by cases h⟩

/-- A close of a backend that has its robot gets its `disable_torque` through. -/
def Disables (f : Follower F σ) (s : Arm F σ) : Label F → Prop
  | .backend j => s.nextCall j = some .close → s.connected j = true →
      (f.command (.disableTorque 5) s.motors).1 = .ok ()
  | .server _ => True

structure Powered (v : Servos F σ) (s : Arm F σ) : Prop where
  torque : v.Limp s.motors ∨ ∃ run ∈ s.controller.runs, run.Energized
  connected : ∀ (j : ℕ) (run : ProgramRun F), s.controller.runs[j]? = some run → run.Energized →
    s.connected j = true
  holder : ∀ j, s.connected j = true →
    ∃ run, s.controller.runs[j]? = some run ∧ .created ∈ run.calls ∧ .close ∉ run.calls

theorem Powered.served (h : s.Powered v) (hserved : Served s s') : s'.Powered v := by
  refine ⟨?_, fun j run' hrun' he => ?_, fun j hj => ?_⟩
  · rw [hserved.motors]
    refine h.torque.imp_right ?_
    rintro ⟨run, hmem, he⟩
    obtain ⟨run', hmem', hcalls⟩ := hserved.kept_mem hmem
    unfold ProgramRun.Energized at he
    exact ⟨run', hmem', by rwa [ProgramRun.Energized, hcalls]⟩
  · rw [hserved.connected]
    obtain hcarried | ⟨-, cfg, now, rfl⟩ := hserved.runs j run' hrun'
    · obtain ⟨run, hrun, hcalls⟩ := hcarried.calls
      unfold ProgramRun.Energized at he
      rw [hcalls] at he
      exact h.connected j run hrun he
    · cases he.1.choose_spec
  · rw [hserved.connected] at hj
    obtain ⟨run, hrun, hcalls⟩ := h.holder j hj
    obtain ⟨run', hrun', heq⟩ := hserved.kept hrun
    exact ⟨run', hrun', by rwa [heq]⟩

section Answer

variable {j : ℕ} {run run' : ProgramRun F} {call : BackendCall F}

omit [FloatRepr F] [Sha256] in
/-- Only an answer to a close leaves the run closed. -/
theorem Answered.close_not_mem (ha : Answered f s j run call run' s') (hok : run.RunOk)
    (hne : call ≠ .close) : .close ∉ run'.calls := by
  intro hin
  rw [ha.calls, List.mem_append, List.mem_singleton] at hin
  exact hin.elim (hok.close_not_mem ha.next) fun hc => hne hc.symm

omit [FloatRepr F] [Sha256] in
/-- Behind an answer a run has torque unless it is the one that closed. -/
theorem Answered.energized (ha : Answered f s j run call run' s') (hok : run.RunOk)
    {run₁ : ProgramRun F} (hmem : run₁ ∈ s.controller.runs) (he : run₁.Energized)
    (hne : call = .close → run₁ ≠ run) : ∃ run₂ ∈ s'.controller.runs, run₂.Energized := by
  obtain rfl | hmem := ha.kept_mem hmem
  · obtain ⟨⟨m, hm⟩, -⟩ := he
    exact ⟨run', List.mem_of_getElem? ha.self,
      ⟨m, by rw [ha.calls]; exact List.mem_append_left _ hm⟩,
      ha.close_not_mem hok fun hc => hne hc rfl⟩
  · exact ⟨run₁, hmem, he⟩

omit [FloatRepr F] [Sha256] in
theorem Powered.torque_answered (h : s.Powered v) (hf : f.Lawful v)
    (ha : Answered f s j run call run' s') (hok : run.RunOk)
    (hdisables : call = .close → s.connected j = true →
      (f.command (.disableTorque 5) s.motors).1 = .ok ()) :
    v.Limp s'.motors ∨ ∃ run ∈ s'.controller.runs, run.Energized := by
  rw [ha.motors]
  by_cases hc : call = .close
  · subst hc
    cases hconnected : s.connected j with
    | true => exact .inl (hf.close_limp (s := ⟨true, s.motors⟩) rfl (hdisables rfl hconnected))
    | false =>
      rw [(Follower.act_close (f := f) ⟨false, s.motors⟩).2 rfl]
      refine h.torque.imp_right ?_
      rintro ⟨run₁, hmem₁, he⟩
      refine ha.energized hok hmem₁ he fun _ heq => ?_
      rw [h.connected j run ha.before (heq ▸ he)] at hconnected
      cases hconnected
  · cases hen : call.isEnable with
    | true =>
      refine .inr ⟨run', List.mem_of_getElem? ha.self, ?_, ha.close_not_mem hok hc⟩
      cases call <;> cases hen
      exact ⟨_, by rw [ha.calls]; exact List.mem_append_right _ (List.mem_singleton_self _)⟩
    | false =>
      obtain hlimp | ⟨run₁, hmem₁, he⟩ := h.torque
      · exact .inl (hf.act_limp hen hlimp)
      · exact .inr (ha.energized hok hmem₁ he fun hc' => absurd hc' hc)

omit [FloatRepr F] [Sha256] in
/-- The run that got the answer has its robot as long as it has torque. -/
theorem Powered.connected_answered (h : s.Powered v) (hinv : s.Inv v m₀)
    (ha : Answered f s j run call run' s') (he : run'.Energized) : s'.connected j = true := by
  have hok := hinv.controller.runs j run ha.before
  rw [ha.connected_self]
  obtain ⟨⟨m, hm⟩, hnot⟩ := he
  rw [ha.calls, List.mem_append, List.mem_singleton] at hm
  rw [ha.calls, List.mem_append, List.mem_singleton, not_or] at hnot
  have hearlier : .enableAtCurrent m ∈ run.calls → s.connected j = true := fun hin =>
    h.connected j run ha.before ⟨⟨m, hin⟩, hnot.1⟩
  cases call with
  | created =>
    exact absurd (hm.resolve_right fun he => by cases he) (hok.enable_not_mem ha.next (.inl rfl) m)
  | prepareDisabled =>
    exact absurd (hm.resolve_right fun he => by cases he) (hok.enable_not_mem ha.next (.inr rfl) m)
  | close => exact absurd rfl hnot.2
  | enableAtCurrent q =>
    rw [Follower.act_connected (.inl rfl)]
    have hready := hinv.ready j run ha.before
    unfold Ready at hready
    rw [ProgramRun.pc_of_enable ha.next] at hready
    exact hready.1
  | readQ =>
    rw [Follower.act_connected (.inr (.inl rfl))]
    exact hearlier (hm.resolve_right fun he => by cases he)
  | sendQ p q =>
    rw [Follower.act_connected (.inr (.inr ⟨p, q, rfl⟩))]
    exact hearlier (hm.resolve_right fun he => by cases he)

omit [FloatRepr F] [Sha256] in
/-- A backend that has its robot behind an answer is that of a run that has not closed it. -/
theorem Powered.holder_answered (h : s.Powered v) (ha : Answered f s j run call run' s')
    (hok : run.RunOk) (i : ℕ) (hi : s'.connected i = true) :
    ∃ run, s'.controller.runs[i]? = some run ∧ .created ∈ run.calls ∧ .close ∉ run.calls := by
  by_cases hij : i = j
  · subst hij
    rw [ha.connected_self] at hi
    have hc : call ≠ .close := by
      rintro rfl
      rw [(Follower.act_close _).1] at hi
      cases hi
    refine ⟨run', ha.self, ?_, ha.close_not_mem hok hc⟩
    rw [ha.calls]
    obtain hpc | ⟨hcreated, -⟩ := hok.holds_of_nextCall ha.next
    · have hnext := ha.next
      unfold ProgramRun.nextCall at hnext
      rw [hpc] at hnext
      cases hnext
      exact List.mem_append_right _ (List.mem_singleton_self _)
    · exact List.mem_append_left _ hcreated
  · rw [ha.connected_other hij] at hi
    obtain ⟨run₁, hrun₁, hh⟩ := h.holder i hi
    exact ⟨run₁, (ha.other hij).trans hrun₁, hh⟩

omit [FloatRepr F] [Sha256] in
theorem Powered.answered (h : s.Powered v) (hinv : s.Inv v m₀) (hf : f.Lawful v)
    (ha : Answered f s j run call run' s')
    (hdisables : call = .close → s.connected j = true →
      (f.command (.disableTorque 5) s.motors).1 = .ok ()) : s'.Powered v := by
  have hok := hinv.controller.runs j run ha.before
  refine ⟨h.torque_answered hf ha hok hdisables, fun i run₁ hrun₁ he => ?_,
    h.holder_answered ha hok⟩
  obtain ⟨rfl, rfl⟩ | ⟨hne, hrun₁⟩ := ha.origin hrun₁
  · exact h.connected_answered hinv ha he
  · rw [ha.connected_other hne]
    exact h.connected i run₁ hrun₁ he

end Answer

/-- From motors without torque on, and where every `disable_torque` of a close comes through: the
motors have torque only while the active run asked for it and did not close its backend; and once
every run is in a final state no motor has torque and every backend has released its robot. -/
theorem released (hf : f.Lawful v) (hlimp : v.Limp m₀) {labels : List (Label F)}
    (hrun : Transition.run (step f) (start settings m₀) labels = some s)
    (hdisables : Transition.Along (step f) (Disables f) (start settings m₀) labels) :
    (∀ i, v.torque s.motors i = true → ∃ j run, s.controller.runs[j]? = some run ∧ run.Energized ∧
      s.controller.active = some j ∧ s.connected j = true) ∧
    ((∀ run ∈ s.controller.runs, run.state.terminal = true) →
      v.Limp s.motors ∧ ∀ j, s.connected j = false) := by
  obtain ⟨hinv, hp⟩ : s.Inv v m₀ ∧ s.Powered v := by
    refine Transition.run_invariant_along (I := fun s => s.Inv v m₀ ∧ s.Powered v) ?_ hrun hdisables
      ⟨inv_start v settings m₀, .inl hlimp, fun _ _ h => (by cases h), fun _ h => (by cases h)⟩
    rintro s l s' ⟨hinv, hp⟩ hok hs
    refine ⟨hinv.step hf hs, ?_⟩
    obtain hserved | ⟨j, run, call, run', rfl, ha⟩ := step_cases hs
    · exact hp.served hserved
    · refine hp.answered hinv hf ha fun hc => hok ?_
      show s.controller.runs[j]?.bind _ = _
      rw [ha.before, ← hc]
      exact ha.next
  refine ⟨fun i hi => ?_, fun hterminal => ⟨?_, fun j => ?_⟩⟩
  · obtain hl | ⟨run, hmem, he⟩ := hp.torque
    · rw [hl i] at hi
      cases hi
    · obtain ⟨j, hrun⟩ := List.getElem?_of_mem hmem
      have hholds := (hinv.controller.runs j run hrun).holds_of_energized he
      exact ⟨j, run, hrun, he, hinv.controller.holder_active hrun hholds, hp.connected j run hrun he⟩
  · refine hp.torque.resolve_right ?_
    rintro ⟨run, hmem, he⟩
    obtain ⟨j, hrun⟩ := List.getElem?_of_mem hmem
    have hok := hinv.controller.runs j run hrun
    have hnot := hok.not_terminal (hok.holds_of_energized he)
    rw [hterminal run hmem] at hnot
    cases hnot
  · by_contra hj
    rw [Bool.not_eq_false] at hj
    obtain ⟨run, hrun, hcreated, hclose⟩ := hp.holder j hj
    have hnot := (hinv.controller.runs j run hrun).not_terminal (.inr ⟨hcreated, hclose⟩)
    rw [hterminal run (List.mem_of_getElem? hrun)] at hnot
    cases hnot

end Arm

/-! ## A small arm -/

section Demo

open Arm

local instance armHash : Sha256 := lengthHash

/-- Motors that have torque together; the goal is the one last written. -/
structure DemoMotors where
  torque : Bool
  goal : Option (Pose ℚ)

/-- A follower that stays where it is, at zero, and whose calls all return. -/
def demoFollower : Follower ℚ DemoMotors where
  create m := (.ok true, m)
  command
    | .disableTorque _, m => (.ok (), { m with torque := false })
    | .enableTorque, m => (.ok (), { m with torque := true })
    | .writeGoal q, m => (.ok (), { m with goal := some q })
    | _, m => (.ok (), m)
  isCalibrated m := (.ok true, m)
  presentPosition _ m := (.ok (demoPose 0), m)
  calibrationFpath := []
  positionMode := 0
  positionPCoefficient := 16
  positionICoefficient := 0
  positionDCoefficient := 32
  numReadRetries := 0

def demoServos : Servos ℚ DemoMotors where
  torque m _ := m.torque
  goal m j := m.goal.map (· j)

theorem demoFollower_lawful : demoFollower.Lawful demoServos where
  create _ _ := ⟨id, rfl⟩
  isCalibrated _ _ := ⟨id, rfl⟩
  presentPosition _ _ _ := ⟨id, rfl⟩
  connect _ _ := ⟨id, rfl⟩
  setWriteTimeout _ _ := ⟨id, rfl⟩
  disableTorque _ _ _ := ⟨fun h => (by cases h), rfl⟩
  disabled _ _ _ _ := rfl
  configureMotors _ _ := ⟨id, rfl⟩
  write _ _ _ _ _ := ⟨id, rfl⟩
  writeGoal _ _ _ := ⟨id, .inr rfl⟩
  written _ _ _ _ := rfl
  enableTorque _ _ := rfl
  enabled _ _ _ := rfl
  disconnect _ _ := ⟨id, rfl⟩

theorem demoFollower_disables (s : Arm ℚ DemoMotors) (l : Arm.Label ℚ) : Disables demoFollower s l := by
  cases l with
  | server l => trivial
  | backend j => exact fun _ _ => rfl

/-- A step of the first run; its backend answers by itself. -/
def armLabel : ProgramRun.Label ℚ → Arm.Label ℚ
  | .exec .returned | .exec (.array _) | .exec (.pose _) => .backend 0
  | label => .server (demoLabel 0 0 label)

def demoOpening : List (Arm.Label ℚ) :=
  [.server (.message 0 (.openRun demoRequest)), .server (.create 0)]

/-- The first run from its opening to its end. -/
def demoWork : List (Arm.Label ℚ) := demoOpening ++ demoRun.map armLabel

theorem released_demo : ∃ s, Transition.run (Arm.step demoFollower)
      (start demoSettings ⟨false, some (demoPose 90)⟩) demoWork = some s ∧
    s.controller.runs.map (fun run => run.calls.any BackendCall.isEnable) = [true] ∧
    demoServos.Limp s.motors ∧ ∀ j, s.connected j = false := by
  have hrun : ((Transition.run (Arm.step demoFollower)
      (start demoSettings ⟨false, some (demoPose 90)⟩) demoWork).map fun s =>
        (s.controller.runs.map (fun run => run.calls.any BackendCall.isEnable),
          s.controller.runs.all fun run => run.state.terminal)) = some ([true], true) := by
    decide +kernel
  obtain ⟨s, hs, he⟩ := Option.map_eq_some_iff.1 hrun
  rw [Prod.mk.injEq, List.all_eq_true] at he
  have hall : Transition.Along (Arm.step demoFollower) (fun _ _ => True)
      (start demoSettings ⟨false, some (demoPose 90)⟩) demoWork :=
    Transition.along_of_forall fun _ _ => trivial
  obtain ⟨-, hend⟩ := released demoFollower_lawful (fun _ => rfl) hs
    (hall.mono fun s l _ => demoFollower_disables s l)
  exact ⟨s, hs, he.1, hend he.2⟩

end Demo

end RemoteRobot.Stream
