import RemoteRobot.Stream.Controller

/-!
# What still reaches the motors

A stop, a lost connection and a silent client act on a run from other threads, at any point between
the checks of `_execute` and its calls.  A stop that comes before the check that precedes torque
keeps torque off; after a stop at most the target of the tick going on is sent; and a tick that
finds the heartbeat too old sends nothing more.
-/

namespace RemoteRobot.Stream

open Py Except

variable {F : Type}

/-- The thread has not come to the check of `stop_event` that precedes torque. -/
def Pc.beforeCheck : Pc F → Bool
  | .unstarted | .factory | .prepare | .capture _ | .stopCheck _ => true
  | _ => false

/-- How many targets the thread sends at most before it checks `stop_event` again. -/
def Pc.owed : Pc F → ℕ
  | .heartbeatCheck _ _ | .locate _ _ | .read _ | .send _ _ | .sendLast _ _ => 1
  | _ => 0

theorem Pc.owed_le_one (pc : Pc F) : pc.owed ≤ 1 := by
  unfold owed
  split <;> omega

/-- The call a thread is about to make is no more than the target it still owes. -/
theorem Pc.target_le_owed {pc : Pc F} {c : BackendCall F} (h : pc.call? = some c) :
    c.target?.toList.length ≤ pc.owed := by
  cases pc <;> cases h <;> simp [BackendCall.target?, owed]

namespace ProgramRun

variable {r r' : ProgramRun F}

/-! ## A stop before torque -/

/-- A stopped run that has not asked for torque. -/
structure Disarmed (r : ProgramRun F) : Prop where
  stop : r.stopEvent = true
  pc : r.pc.beforeCheck = true ∨ r.pc.stage = .leaving ∨ r.pc.stage = .left
  torque : r.torqueEnabled = false
  calls : ∀ m, .enableAtCurrent m ∉ r.calls

theorem BackendOk.disarmed (h : r.BackendOk) (hstop : r.stopEvent = true)
    (hpc : r.pc.beforeCheck = true) : r.Disarmed := by
  have hopen : (Session .none r.calls ∨ Session .opened r.calls) ∧ r.torqueEnabled = false := by
    unfold BackendOk at h
    cases hp : r.pc <;> rw [hp] at h hpc
    case unstarted | factory => exact ⟨.inl h.1, h.2.2⟩
    case prepare | capture | stopCheck => exact ⟨.inr h.1, h.2.2⟩
    all_goals cases hpc
  refine ⟨hstop, .inl hpc, hopen.2, fun m hmem => ?_⟩
  have hzero : r.calls.countP BackendCall.isEnable = 0 := by
    rcases hopen.1 with hs | hs
    · exact hs.countP_isEnable.2 (.inl rfl)
    · exact hs.countP_isEnable.2 (.inr rfl)
  exact List.countP_eq_zero.1 hzero _ hmem rfl

section Executor

variable [PyFloat F] [FloatTrunc F]

omit [PyFloat F] [FloatTrunc F] in
/-- A call that is not for torque leaves a run disarmed. -/
theorem Disarmed.not_mem (h : r.Disarmed) {cs : List (BackendCall F)}
    (hcs : ∀ c ∈ cs, c.isEnable = false) (m : Pose F) : .enableAtCurrent m ∉ r.calls ++ cs := by
  intro hmem
  rcases List.mem_append.1 hmem with hmem | hmem
  · exact h.calls m hmem
  · cases hcs _ hmem

theorem Disarmed.executed (h : r.Disarmed) (hx : Executed r r') : r'.Disarmed := by
  have hnot := h.pc
  cases hx with
  | create hpc => exact ⟨h.stop, .inl rfl, h.torque, h.not_mem (by simp [BackendCall.isEnable])⟩
  | prepare hpc => exact ⟨h.stop, .inl rfl, h.torque, h.not_mem (by simp [BackendCall.isEnable])⟩
  | capture hpc => exact ⟨h.stop, .inl rfl, h.torque, h.calls⟩
  | reject hpc => exact ⟨h.stop, .inr (.inl rfl), h.torque, h.calls⟩
  | pass hpc hstop =>
    rw [h.stop] at hstop
    cases hstop
  | fail htry hcalls =>
    refine ⟨h.stop, .inr (.inl rfl), h.torque, h.not_mem fun c hc => ?_⟩
    rcases hcalls with rfl | ⟨c', hc', rfl⟩
    · cases hc
    · obtain rfl := List.mem_singleton.1 hc
      cases hpc : r.pc <;> rw [hpc] at hc' hnot <;> cases hc' <;>
        first | rfl | simp [Pc.beforeCheck, Pc.stage] at hnot
  | handle | noBackend | release => exact ⟨h.stop, .inr (.inl rfl), h.torque, h.calls⟩
  | holdRead hpc hbackend htorque | holdFail hpc hbackend htorque =>
    rw [h.torque] at htorque
    cases htorque
  | holdSend =>
    exact ⟨h.stop, .inr (.inl rfl), h.torque, h.not_mem (by simp [BackendCall.isEnable])⟩
  | close => exact ⟨h.stop, .inr (.inl rfl), rfl, h.not_mem (by simp [BackendCall.isEnable])⟩
  | finish | signal | report => exact ⟨h.stop, .inr (.inr rfl), h.torque, h.calls⟩
  | _ hpc =>
    rw [hpc] at hnot
    simp [Pc.beforeCheck, Pc.stage] at hnot

theorem Disarmed.step [FloatRepr F] [Sha256] (h : r.Disarmed) {label : Label F}
    (hs : r.step label = some r') : r'.Disarmed := by
  refine step_induction hs h (fun _ _ _ _ => ⟨h.stop, h.pc, h.torque, h.calls⟩) (fun hstart => ?_)
    (fun _ _ => ⟨h.stop, h.pc, h.torque, h.calls⟩) (fun _ => ⟨rfl, h.pc, h.torque, h.calls⟩) ?_
    h.executed
  · obtain ⟨-, -, -, -, rfl⟩ := start_eq_ok.1 hstart
    exact ⟨h.stop, .inl rfl, h.torque, h.calls⟩
  · unfold ProgramRun.connectionLost
    split
    · exact ⟨h.stop, h.pc, h.torque, h.calls⟩
    · exact ⟨rfl, h.pc, h.torque, h.calls⟩
    · exact h

/-! ## A stop while running -/

omit [PyFloat F] [FloatTrunc F] in
theorem targets_append {cs : List (BackendCall F)} (hcalls : r'.calls = r.calls ++ cs) :
    r'.targets = r.targets ++ cs.filterMap BackendCall.target? := by
  unfold targets
  rw [hcalls, List.filterMap_append]

/-- A stopped thread owes at most what it owed before, less what it just sent. -/
theorem Executed.targets_owed (hx : Executed r r') (hstop : r.stopEvent = true) :
    r'.targets.length + r'.pc.owed ≤ r.targets.length + r.pc.owed := by
  cases hx with
  | @fail e calls now htry hcalls =>
    rw [targets_append rfl, List.length_append]
    rcases hcalls with rfl | ⟨c, hc, rfl⟩
    · exact Nat.add_le_add_left (Nat.zero_le _) _
    · have hone := Pc.target_le_owed hc
      have hlen : ([c].filterMap BackendCall.target?).length = c.target?.toList.length := by
        cases hc : c.target? <;> simp [hc]
      show _ + _ + 0 ≤ _
      omega
  | pass hpc hgo | tick hpc hclock hgo =>
    rw [hstop] at hgo
    cases hgo
  | _ hpc => simp [hpc, Pc.owed, call, emit, ProgramRun.publish, targets, BackendCall.target?]

/-- Behind the `try` block no target is sent. -/
theorem Executed.targets_leaving (hx : Executed r r')
    (hstage : r.pc.stage = .leaving ∨ r.pc.stage = .left) :
    r'.targets = r.targets ∧ (r'.pc.stage = .leaving ∨ r'.pc.stage = .left) := by
  cases hx with
  | fail htry => rcases hstage with hs | hs <;> rw [hs] at htry <;> cases htry
  | handle | noBackend | release => exact ⟨rfl, .inl rfl⟩
  | holdRead | holdFail | holdSend | close =>
    exact ⟨(targets_append rfl).trans (List.append_nil _), .inl rfl⟩
  | finish | signal | report => exact ⟨rfl, .inr rfl⟩
  | _ hpc => rcases hstage with hs | hs <;> rw [hpc] at hs <;> cases hs

section Reachable

variable [FloatRepr F] [Sha256]

theorem stopEvent_of_step {label : Label F} (hs : r.step label = some r')
    (hstop : r.stopEvent = true) : r'.stopEvent = true := by
  refine step_induction (P := fun s => s.stopEvent = true) hs hstop (fun _ _ _ _ => hstop)
    (fun hstart => ?_) (fun _ _ => hstop) (fun _ => rfl) ?_ fun hx => ?_
  · obtain ⟨-, -, -, -, rfl⟩ := start_eq_ok.1 hstart
    exact hstop
  · unfold ProgramRun.connectionLost
    split
    · exact hstop
    · rfl
    · exact hstop
  · exact hx.frame.2.2.2.2.2.2.trans hstop

/-- The calls of the connections send nothing, and leave the thread where it is or start it. -/
theorem calls_of_call {label : Label F} (hs : r.step label = some r')
    (hlabel : ∀ act, label ≠ .exec act) :
    r'.calls = r.calls ∧ (r'.pc = r.pc ∨ r.start = .ok r') := by
  rcases step_cases hs with ⟨c, -, rfl⟩ | ⟨-, hstart | rfl⟩ | ⟨now, -, -, rfl⟩ | ⟨reason, -, rfl⟩ |
    ⟨-, rfl⟩ | ⟨act, hact, -⟩
  · rcases append_cases r c with he | ⟨-, message, receipts, he⟩ <;> rw [he]
    · exact ⟨rfl, .inl rfl⟩
    · exact ⟨rfl, .inl rfl⟩
  · refine ⟨?_, .inr hstart⟩
    obtain ⟨-, -, -, -, rfl⟩ := start_eq_ok.1 hstart
    rfl
  · exact ⟨rfl, .inl rfl⟩
  · exact ⟨rfl, .inl rfl⟩
  · exact ⟨rfl, .inl rfl⟩
  · unfold ProgramRun.connectionLost
    split <;> exact ⟨rfl, .inl rfl⟩
  · exact absurd hact (hlabel act)

theorem calls_of_step {label : Label F} (hs : r.step label = some r') :
    Executed r r' ∨ r'.calls = r.calls ∧ (r'.pc = r.pc ∨ r.start = .ok r') := by
  cases label with
  | exec act => exact .inl (exec_moved hs)
  | _ => exact .inr (calls_of_call hs fun act hact => by cases hact)

theorem targets_owed_of_step {label : Label F} (hs : r.step label = some r')
    (hstop : r.stopEvent = true) :
    r'.targets.length + r'.pc.owed ≤ r.targets.length + r.pc.owed := by
  rcases calls_of_step hs with hx | ⟨hcalls, hpc⟩
  · exact hx.targets_owed hstop
  · have htargets : r'.targets = r.targets := congrArg (List.filterMap BackendCall.target?) hcalls
    rw [htargets]
    rcases hpc with hpc | hstart
    · rw [hpc]
    · obtain ⟨-, -, -, -, rfl⟩ := start_eq_ok.1 hstart
      exact Nat.add_le_add_left (Nat.zero_le _) _

/-- Once `stop_event` is set at most one target follows. -/
theorem targets_of_stopped (hstop : r.stopEvent = true) (h : Transition.Reachable step r r') :
    r'.targets.length ≤ r.targets.length + 1 := by
  have hinv := h.invariant (I := fun s => s.stopEvent = true ∧
    s.targets.length + s.pc.owed ≤ r.targets.length + r.pc.owed) ?_ ⟨hstop, Nat.le_refl _⟩
  · have hone := r.pc.owed_le_one
    omega
  · rintro s label s' ⟨hset, hle⟩ hs
    exact ⟨stopEvent_of_step hs hset, (targets_owed_of_step hs hset).trans hle⟩

/-- Behind the `try` block no target follows. -/
theorem targets_of_leaving (h : r.StageOk) (hstage : r.pc.stage = .leaving ∨ r.pc.stage = .left)
    (hreach : Transition.Reachable step r r') : r'.targets = r.targets := by
  refine (hreach.invariant (I := fun s => s.StageOk ∧ (s.pc.stage = .leaving ∨ s.pc.stage = .left) ∧
    s.targets = r.targets) ?_ ⟨h, hstage, rfl⟩).2.2
  rintro s label s' ⟨hok, hs, htargets⟩ hstep
  refine ⟨hok.step hstep, ?_⟩
  rcases calls_of_step hstep with hx | ⟨hcalls, hpc | hstart⟩
  · have hkeep := hx.targets_leaving hs
    exact ⟨hkeep.2, hkeep.1.trans htargets⟩
  · exact ⟨hpc ▸ hs, (congrArg (List.filterMap BackendCall.target?) hcalls).trans htargets⟩
  · have hidle := (hok.idle_of_start hstart).1
    rw [hidle] at hs
    rcases hs with hs | hs <;> cases hs

omit [FloatRepr F] [Sha256] in
/-- A tick that finds the heartbeat too old is the end of the `try` block. -/
theorem stage_of_expired {l : Loop F} {now : F} {act : Act F} (hpc : r.pc = .heartbeatCheck l now)
    (hignore : r.ignoreHeartbeat = false) (hexpired : r.heartbeatExpired now = true)
    (hx : r.exec act = some r') : r'.pc.stage = .leaving ∧ r'.targets = r.targets := by
  unfold exec at hx
  rw [hpc] at hx
  cases act <;> cases hx
  unfold checkHeartbeat
  rw [if_pos ⟨hignore, hexpired⟩]
  exact ⟨rfl, rfl⟩

end Reachable

end Executor

end ProgramRun

namespace ProgramController

variable {c c' : ProgramController F} [PyFloat F] [FloatTrunc F] [FloatRepr F] [Sha256]

/-! ## Runs opened by the controller -/

/-- `complete_if_sealed` is for sealed runs only. -/
structure SealedOk (c : ProgramController F) : Prop where
  runs : ∀ (j : ℕ) (run : ProgramRun F), c.runs[j]? = some run →
    run.disconnectPolicy = .completeIfSealed → run.runMode = .sealed
  opening : ∀ (i : ℕ) (cfg : RunConfig F), c.opening = some (i, cfg) →
    cfg.disconnectPolicy = .completeIfSealed → cfg.runMode = .sealed

theorem SealedOk.moved (h : c.SealedOk) (hmoved : Moved c c') : c'.SealedOk := by
  refine ⟨fun j run' hrun' => ?_, fun i cfg hopening => ?_⟩
  · rcases hmoved.origin hrun' with ⟨run, hrun, rfl | ⟨label, hstep⟩⟩ |
      ⟨i, cfg, now, hopening, -, -, rfl⟩
    · exact h.runs j run' hrun
    · rw [ProgramRun.config_of_step hstep]
      exact h.runs j run hrun
    · exact h.opening i cfg hopening
  · cases hmoved with
    | opened hfree hopen =>
      cases hopening
      exact (openRun_eq_ok hopen).2
    | created => cases hopening
    | idle | ran => exact h.opening i cfg hopening

theorem sealedOk_of_reachable {settings : Settings F}
    (h : Transition.Reachable step (init settings) c) : c.SealedOk :=
  h.invariant (fun _ _ _ hc hs => hc.moved (moved_of_step hs))
    ⟨fun _ _ h => (by cases h), fun _ _ h => (by cases h)⟩

/-- Of a run of the controller, whatever follows: stopped before the check that precedes torque, it
never asks for torque; after `request_stop` it sends at most one more target; a tick that finds the
heartbeat too old sends none any more, unless the program is complete and the run was opened in
sealed mode to complete without its client. -/
theorem stop_reaches_motors (settings : Settings F) (c : ProgramController F)
    (h : Transition.Reachable step (init settings) c) (j : ℕ) (run : ProgramRun F)
    (hrun : c.runs[j]? = some run) :
    (run.stopEvent = true → run.pc.beforeCheck = true →
      ∀ run', Transition.Reachable ProgramRun.step run run' →
        run'.torqueEnabled = false ∧ ∀ m, .enableAtCurrent m ∉ run'.calls) ∧
    (∀ reason run', Transition.Reachable ProgramRun.step (run.requestStop reason) run' →
      run'.targets.length ≤ run.targets.length + 1) ∧
    (∀ loop now, run.pc = .heartbeatCheck loop now → run.heartbeatExpired now = true →
      ¬(run.finalReceived = true ∧ run.disconnectPolicy = .completeIfSealed) →
      ∀ act run₁ run', run.exec act = some run₁ → Transition.Reachable ProgramRun.step run₁ run' →
        run'.targets = run.targets) ∧
    (run.disconnectPolicy = .completeIfSealed → run.runMode = .sealed) := by
  have hok := (controllerOk_of_reachable h).runs j run hrun
  refine ⟨fun hstop hpc run' hreach => ?_, fun reason run' hreach => ?_,
    fun loop now hpc hexpired hnot act run₁ run' hx hreach => ?_,
    (sealedOk_of_reachable h).runs j run hrun⟩
  · have hdisarmed := hreach.invariant (fun _ _ _ hd hs => hd.step hs)
      (hok.backend.disarmed hstop hpc)
    exact ⟨hdisarmed.torque, hdisarmed.calls⟩
  · exact ProgramRun.targets_of_stopped (r := run.requestStop reason) rfl hreach
  · have hignore : run.ignoreHeartbeat = false := by
      unfold ProgramRun.ignoreHeartbeat
      simpa using hnot
    obtain ⟨hstage, htargets⟩ := ProgramRun.stage_of_expired hpc hignore hexpired hx
    have hok₁ : run₁.StageOk := hok.stage.executed (ProgramRun.exec_moved hx)
    exact (ProgramRun.targets_of_leaving hok₁ (.inl hstage) hreach).trans htargets

end ProgramController

/-! ## A silent client -/

section Demo

open ProgramController

local instance stoppingHash : Sha256 := lengthHash

/-- A run whose client says nothing for five seconds, up to the check of the heartbeat. -/
def demoSilence : List (ProgramController.Label ℚ) :=
  [Label.message 0 (.openRun demoRequest), .create 0] ++
    (demoArming (demoChunk 0 demoPoints true)).map (demoLabel 0 0) ++ [Label.exec 0 (.clock 5)]

/-- The reading of a tick at the check of the heartbeat. -/
def Pc.checkedAt? : Pc F → Option F
  | .heartbeatCheck _ now => some now
  | _ => none

theorem stop_reaches_motors_demo : ∃ c run run₁,
    Transition.run step (init demoSettings) demoSilence = some c ∧ c.runs[0]? = some run ∧
    run.exec .internal = some run₁ ∧
    ∀ run', Transition.Reachable ProgramRun.step run₁ run' → run'.targets = run.targets := by
  have hrun : ((Transition.run step (init demoSettings) demoSilence).map fun c =>
      c.runs[0]?.map fun run => (run.pc.checkedAt?, run.heartbeatExpired 5,
        run.disconnectPolicy, (run.exec .internal).isSome)) =
      some (some (some 5, true, .stopAfterTimeout, true)) := by
    decide +kernel
  obtain ⟨c, hc, he⟩ := Option.map_eq_some_iff.1 hrun
  obtain ⟨run, hrun, he⟩ := Option.map_eq_some_iff.1 he
  simp only [Prod.mk.injEq] at he
  obtain ⟨hchecked, hexpired, hpolicy, hsome⟩ := he
  obtain ⟨run₁, hrun₁⟩ := Option.isSome_iff_exists.1 hsome
  obtain ⟨loop, hpc⟩ : ∃ loop, run.pc = .heartbeatCheck loop 5 := by
    cases hp : run.pc <;> rw [hp] at hchecked <;> cases hchecked
    exact ⟨_, rfl⟩
  have hkeep := (stop_reaches_motors demoSettings c ⟨_, hc⟩ 0 run hrun).2.2.1 loop 5 hpc hexpired
  refine ⟨c, run, run₁, hc, hrun, hrun₁, fun run' hreach => ?_⟩
  exact hkeep (fun hnot => by rw [hpolicy] at hnot; cases hnot.2) .internal run₁ run' hrun₁ hreach

end Demo

end RemoteRobot.Stream
