import RemoteRobot.Stream.Stages

/-!
# How an execution ends

Whatever the backend raises and wherever, a thread that is through has left the run in a final
state, reported it once, last, and closed its backend.  Torque is only requested at a checked start
pose, and `completed` means that the whole program arrived and its last point was commanded.
-/

namespace RemoteRobot.Stream

open Py Except

variable {F : Type}

def Event.isFinish : Event F → Bool
  | .runFinished _ _ => true
  | _ => false

/-- The target of a trajectory, not that of the hold. -/
def BackendCall.target? : BackendCall F → Option (Pose F)
  | .sendQ .hold _ => none
  | .sendQ _ q => some q
  | _ => none

/-- The sample of the trajectory at this time is sent. -/
def BackendCall.samples (cursorUs : ℤ) : BackendCall F → Bool
  | .sendQ (.interpolated t) _ => decide (t = cursorUs)
  | _ => false

theorem BackendCall.samples_iff {cursorUs : ℤ} {c : BackendCall F} :
    c.samples cursorUs = true ↔ ∃ q, c = .sendQ (.interpolated cursorUs) q := by
  constructor
  · intro h
    unfold samples at h
    split at h
    · rw [of_decide_eq_true h]
      exact ⟨_, rfl⟩
    · cases h
  · rintro ⟨q, rfl⟩
    exact decide_eq_true rfl

namespace ProgramRun

variable {r r' : ProgramRun F}

/-- The trajectory targets sent so far. -/
def targets (r : ProgramRun F) : List (Pose F) := r.calls.filterMap BackendCall.target?

/-! ## Events -/

/-- `run_finished` is the last event, and the terminal event is set before it. -/
def EventsOk (r : ProgramRun F) : Prop := match r.pc with
  | .done => r.terminalEvent = true ∧ ∃ before snapshot o,
      r.events = before ++ [Event.runFinished snapshot o] ∧ ∀ e ∈ before, e.isFinish = false
  | .report _ => r.terminalEvent = true ∧ ∀ e ∈ r.events, e.isFinish = false
  | _ => ∀ e ∈ r.events, e.isFinish = false

theorem eventsOk_init (cfg : RunConfig F) (now : F) : (init cfg now).EventsOk := by
  intro e he
  cases he

theorem EventsOk.none_finished (h : r.EventsOk) (hpc : r.pc ≠ .done) :
    ∀ e ∈ r.events, e.isFinish = false := by
  unfold EventsOk at h
  split at h
  · exact absurd ‹_› hpc
  · exact h.2
  · exact h

section Executor

variable [PyFloat F] [FloatTrunc F]

theorem EventsOk.executed (h : r.EventsOk) (hx : Executed r r') : r'.EventsOk := by
  have hpc : r.pc ≠ .done := by
    intro hdone
    cases hx <;> simp_all [Pc.stage, Stage.inTry]
  have hnone := h.none_finished hpc
  cases hx with
  | report hpc =>
    rw [EventsOk, hpc] at h
    exact ⟨h.1, _, _, _, rfl, h.2⟩
  | signal hpc => exact ⟨rfl, hnone⟩
  | announce hpc | handle hpc =>
    intro e he
    rcases List.mem_append.1 he with he | he
    · exact hnone e he
    · cases List.mem_singleton.1 he
      rfl
  | telemetry hpc hevents =>
    intro e he
    rcases List.mem_append.1 he with he | he
    · exact hnone e he
    · obtain ⟨s, x, y, b, rfl⟩ := hevents e he
      rfl
  | _ => exact hnone

theorem EventsOk.step [FloatRepr F] [Sha256] (h : r.EventsOk) (hstage : r.StageOk)
    {label : Label F} (hs : r.step label = some r') : r'.EventsOk := by
  refine step_induction hs h (fun _ _ _ _ => h) (fun hstart => ?_) (fun _ _ => h) (fun _ => h) ?_
    h.executed
  · obtain ⟨hpc, rfl⟩ := hstage.idle_of_start hstart
    rw [EventsOk, hpc] at h
    exact h
  · unfold ProgramRun.connectionLost
    split
    · rename_i hbuffering
      unfold EventsOk at h ⊢
      cases hpc : r.pc <;> rw [hpc] at h
      case report | done => exact ⟨rfl, h.2⟩
      all_goals exact h
    · exact h
    · exact h

/-! ## The start pose -/

omit [FloatTrunc F] in
theorem startPose_finite {a : NdArray F} {m : Pose F} (h : startPose a = some m) (j : Joint) :
    PyFloat.isFinite (m j) = true := by
  unfold startPose at h
  split_ifs at h with ha
  split at h
  · rename_i q₀ q₁ q₂ q₃ q₄ q₅ hdata
    cases h
    have hall := List.all_eq_true.1 ha.2
    rw [hdata] at hall
    cases j <;> exact hall _ (by simp)
  · cases h

/-- The origin is the finite pose `m`, at which the start checks passed. -/
structure Armed (r : ProgramRun F) (m : Pose F) : Prop where
  origin : r.originQ = some m
  finite : ∀ j, PyFloat.isFinite (m j) = true
  checks : r.startChecks m = .ok ()

omit [FloatTrunc F] in
theorem Armed.congr {m : Pose F} (h : r.Armed m) (hcfg : r'.toRunConfig = r.toRunConfig)
    (hpoints : r'.points = r.points) (horigin : r'.originQ = r.originQ) : r'.Armed m := by
  refine ⟨horigin.trans h.origin, h.finite, ?_⟩
  have hchecks := h.checks
  rw [startChecks_eq_ok] at hchecks ⊢
  rw [hcfg, hpoints]
  exact hchecks

omit [FloatTrunc F] in
/-- The start checks hold for the chunks that come later, too. -/
theorem Armed.extend {m : Pose F} {c : Chunk F} (h : r.Armed m) (hc : r.ChunkOk c) :
    (r.extend c).Armed m := by
  refine ⟨h.origin, h.finite, ?_⟩
  have hchecks := h.checks
  rw [startChecks_eq_ok] at hchecks ⊢
  refine ⟨fun hmode => ?_, fun hmode p hp => ?_⟩
  · obtain ⟨first, hfirst, hnear⟩ := hchecks.1 hmode
    refine ⟨first, ?_, hnear⟩
    show first ∈ (r.points ++ c.points).head?
    rw [List.head?_append_of_ne_nil _ (by rintro hnil; simp [hnil] at hfirst)]
    exact hfirst
  · rcases List.mem_append.1 hp with hp | hp
    · exact hchecks.2 hmode p hp
    · have hpoint := ((validatePoints_eq_ok.1 hc.points).1 p hp).2
      exact validateResolvedPosition_eq_ok.1 hpoint hmode m h.origin

/-- Torque is requested at the checked start pose. -/
structure ArmedOk (r : ProgramRun F) : Prop where
  checked : ∀ m, r.pc = .stopCheck m ∨ r.pc = .enable m → r.Armed m
  enabled : ∀ m, .enableAtCurrent m ∈ r.calls → r.Armed m

omit [PyFloat F] [FloatTrunc F] in
theorem BackendOk.not_enabled (h : r.BackendOk) (hstage : r.pc.stage = .arming) (m : Pose F) :
    .enableAtCurrent m ∉ r.calls := by
  have hopened : Session .opened r.calls := by
    unfold BackendOk at h
    cases hpc : r.pc <;> rw [hpc] at h hstage <;> first | exact h.1 | cases hstage
  intro hmem
  have hzero := hopened.countP_isEnable.2 (.inr rfl)
  exact List.countP_eq_zero.1 hzero _ hmem rfl

theorem ArmedOk.executed (h : r.ArmedOk) (hbackend : r.BackendOk) (hx : Executed r r') :
    r'.ArmedOk := by
  obtain ⟨hchecked, henabled⟩ := h
  cases hx with
  | capture hpc ha hchecks =>
    have hnot := hbackend.not_enabled (by rw [hpc]; rfl)
    refine ⟨fun m hm => ?_, fun m hm => absurd hm (hnot m)⟩
    rcases hm with hm | hm <;> cases hm
    exact ⟨rfl, startPose_finite ha, startChecks_eq_ok.2 (startChecks_eq_ok.1 hchecks)⟩
  | reject hpc =>
    have hnot := hbackend.not_enabled (by rw [hpc]; rfl)
    refine ⟨fun m hm => ?_, fun m hm => absurd hm (hnot m)⟩
    rcases hm with hm | hm <;> cases hm
  | pass hpc =>
    refine ⟨fun m hm => ?_, fun m hm => (henabled m hm).congr rfl rfl rfl⟩
    rcases hm with hm | hm <;> cases hm
    exact (hchecked _ (.inl hpc)).congr rfl rfl rfl
  | enable hpc =>
    refine ⟨fun m hm => ?_, fun m hm => ?_⟩
    · rcases hm with hm | hm <;> cases hm
    · rcases List.mem_append.1 hm with hm | hm
      · exact (henabled m hm).congr rfl rfl rfl
      · cases List.mem_singleton.1 hm
        exact (hchecked _ (.inr hpc)).congr rfl rfl rfl
  | fail htry hcalls =>
    refine ⟨fun m hm => ?_, fun m hm => ?_⟩
    · rcases hm with hm | hm <;> cases hm
    · rcases List.mem_append.1 hm with hm | hm
      · exact (henabled m hm).congr rfl rfl rfl
      · rcases hcalls with rfl | ⟨c, hc, rfl⟩
        · cases hm
        · cases List.mem_singleton.1 hm
          cases hpc : r.pc <;> rw [hpc] at hc <;> cases hc
          exact (hchecked _ (.inr hpc)).congr rfl rfl rfl
  | _ =>
    refine ⟨fun m hm => ?_, fun m hm => ?_⟩
    · rcases hm with hm | hm <;> cases hm
    · have hm : BackendCall.enableAtCurrent m ∈ r.calls := by
        simpa [call, emit, publish] using hm
      exact (henabled m hm).congr rfl rfl rfl

omit [FloatTrunc F] in
theorem ArmedOk.extend {c : Chunk F} {message : Str} {receipts : Table ℤ (Str × Receipt)}
    (h : r.ArmedOk) (hstage : r.StageOk) (hc : r.ChunkOk c) :
    { r.extend c with message := message, chunkReceipts := receipts }.ArmedOk := by
  refine ⟨fun m hm => ?_, fun m hm => ((h.enabled m hm).extend hc).congr rfl rfl rfl⟩
  have harming : r.pc.stage = .arming := by
    rcases hm with hm | hm
    · rw [show r.pc = _ from hm]
      rfl
    · rw [show r.pc = _ from hm]
      rfl
  have := hstage.stage_of_chunkOk hc
  simp [harming] at this

theorem ArmedOk.step [FloatRepr F] [Sha256] (h : r.ArmedOk) (hstage : r.StageOk)
    (hbackend : r.BackendOk) {label : Label F} (hs : r.step label = some r') : r'.ArmedOk := by
  have hsame : ∀ m, .enableAtCurrent m ∈ r.calls → r.Armed m := h.enabled
  refine step_induction hs h (fun c _ _ hc => h.extend hstage hc) (fun hstart => ?_)
    (fun _ _ => ⟨fun m hm => (h.checked m hm).congr rfl rfl rfl,
      fun m hm => (h.enabled m hm).congr rfl rfl rfl⟩)
    (fun _ => ⟨fun m hm => (h.checked m hm).congr rfl rfl rfl,
      fun m hm => (h.enabled m hm).congr rfl rfl rfl⟩) ?_ (h.executed hbackend)
  · obtain ⟨hpc, rfl⟩ := hstage.idle_of_start hstart
    refine ⟨fun m hm => ?_, fun m hm => (h.enabled m hm).congr rfl rfl rfl⟩
    rcases hm with hm | hm <;> cases hm
  · unfold ProgramRun.connectionLost
    split
    · exact ⟨fun m hm => (h.checked m hm).congr rfl rfl rfl,
        fun m hm => (h.enabled m hm).congr rfl rfl rfl⟩
    · exact ⟨fun m hm => (h.checked m hm).congr rfl rfl rfl,
        fun m hm => (h.enabled m hm).congr rfl rfl rfl⟩
    · exact h

/-! ## Completion -/

/-- The whole program arrived, and `q` is its resolved last point. -/
def AtLast (r : ProgramRun F) (q : Pose F) : Prop :=
  r.finalReceived = true ∧ ∃ last ∈ r.points.getLast?, r.resolve last.qDeg = .ok q

/-- The whole program arrived, and its resolved last point was the last target sent. -/
def Completed (r : ProgramRun F) : Prop := ∃ q, r.AtLast q ∧ r.targets.getLast? = some q

omit [FloatTrunc F] in
theorem AtLast.congr {q : Pose F} (h : r.AtLast q) (hcfg : r'.toRunConfig = r.toRunConfig)
    (hpoints : r'.points = r.points) (horigin : r'.originQ = r.originQ)
    (hfinal : r'.finalReceived = r.finalReceived) : r'.AtLast q := by
  unfold AtLast resolve at *
  rw [hcfg, hpoints, horigin, hfinal]
  exact h

/-- A completed run commanded its last point, also while the outcome is on its way. -/
structure CompletedOk (r : ProgramRun F) : Prop where
  sending : ∀ q tUs, r.pc = .sendLast q tUs → r.AtLast q
  sent : ∀ tUs, r.pc = .publishLast tUs → r.Completed
  outcome : ∀ o, r.pc.outcome? = some o → o.state = .completed → r.Completed
  state : r.state = .completed → r.Completed

omit [PyFloat F] [FloatTrunc F] in
theorem outcome_ne_completed (e : Raised F) : e.outcome.state ≠ .completed := by
  unfold Raised.outcome
  split
  · simp only
    split_ifs <;> exact fun h => by cases h
  · exact fun h => by cases h

omit [FloatTrunc F] in
theorem Completed.congr (h : r.Completed) (hcfg : r'.toRunConfig = r.toRunConfig)
    (hpoints : r'.points = r.points) (horigin : r'.originQ = r.originQ)
    (hfinal : r'.finalReceived = r.finalReceived) (htargets : r'.targets = r.targets) :
    r'.Completed := by
  obtain ⟨q, hq, hlast⟩ := h
  exact ⟨q, hq.congr hcfg hpoints horigin hfinal, htargets ▸ hlast⟩

omit [PyFloat F] [FloatTrunc F] in
theorem targets_call (c : BackendCall F) :
    (r.call c).targets = r.targets ++ c.target?.toList := by
  unfold targets call
  rw [List.filterMap_append, List.filterMap_cons]
  cases c.target? <;> rfl

omit [PyFloat F] [FloatTrunc F] in
theorem StageOk.left_of_completed (h : r.StageOk) (hs : r.state = .completed) :
    r.pc.stage = .left := by
  have hstate := h.state
  rw [hs] at hstate
  cases hstage : r.pc.stage <;> rw [hstage] at hstate <;> simp_all [Stage.Allows]

theorem CompletedOk.executed (h : r.CompletedOk) (hstage : r.StageOk) (hx : Executed r r') :
    r'.CompletedOk := by
  have hleft := hstage.left_of_completed
  cases hx with
  | @reachEnd _ _ _ last q hpc hcursor hfinal hlast hle hq =>
    refine ⟨fun _ _ he => ?_, fun _ he => (by cases he), fun _ he => (by cases he), fun hs => ?_⟩
    · cases he
      exact ⟨hfinal, last, hlast, hq⟩
    · rw [hpc] at hleft
      cases hleft hs
  | @sendLast q tUs hpc =>
    refine ⟨fun _ _ he => (by cases he), fun _ _ => ?_, fun _ he => (by cases he), fun hs => ?_⟩
    · refine ⟨q, (h.sending q tUs hpc).congr rfl rfl rfl rfl, ?_⟩
      show (r.call (.sendQ .last q)).targets.getLast? = some q
      rw [targets_call]
      exact List.getLast?_concat
    · rw [hpc] at hleft
      cases hleft hs
  | publishLast hpc =>
    refine ⟨fun _ _ he => (by cases he), fun _ he => (by cases he), fun _ _ _ => ?_, fun hs => ?_⟩
    · exact (h.sent _ hpc).congr rfl rfl rfl rfl rfl
    · rw [hpc] at hleft
      cases hleft hs
  | handle hpc =>
    refine ⟨fun _ _ he => (by cases he), fun _ he => (by cases he), fun o ho hs => ?_, fun hs => ?_⟩
    · cases ho
      exact absurd hs (outcome_ne_completed _)
    · rw [hpc] at hleft
      cases hleft hs
  | noBackend hpc | release hpc | holdRead hpc | holdFail hpc | holdSend hpc | close hpc =>
    refine ⟨fun _ _ he => (by cases he), fun _ he => (by cases he), fun o ho hs => ?_, fun hs => ?_⟩
    · cases ho
      refine (h.outcome _ (by rw [hpc]; rfl) hs).congr rfl rfl rfl rfl ?_
      first
        | rfl
        | exact (targets_call _).trans (List.append_nil _)
    · rw [hpc] at hleft
      cases hleft hs
  | finish hpc =>
    refine ⟨fun _ _ he => (by cases he), fun _ he => (by cases he), fun o ho hs => ?_, fun hs => ?_⟩
    · cases ho
      exact (h.outcome _ (by rw [hpc]; rfl) hs).congr rfl rfl rfl rfl rfl
    · exact (h.outcome _ (by rw [hpc]; rfl) hs).congr rfl rfl rfl rfl rfl
  | signal hpc =>
    refine ⟨fun _ _ he => (by cases he), fun _ he => (by cases he), fun o ho hs => ?_, fun hs => ?_⟩
    · cases ho
      exact (h.outcome _ (by rw [hpc]; rfl) hs).congr rfl rfl rfl rfl rfl
    · exact (h.state hs).congr rfl rfl rfl rfl rfl
  | report hpc =>
    exact ⟨fun _ _ he => (by cases he), fun _ he => (by cases he), fun _ he => (by cases he),
      fun hs => (h.state hs).congr rfl rfl rfl rfl rfl⟩
  | stop hpc =>
    refine ⟨fun _ _ he => (by cases he), fun _ he => (by cases he), fun o ho hs => ?_, fun hs => ?_⟩
    · cases ho
      cases hs
    · rw [hpc] at hleft
      cases hleft hs
  | setRunning hpc =>
    exact ⟨fun _ _ he => (by cases he), fun _ he => (by cases he), fun _ he => (by cases he),
      fun hs => (by cases hs)⟩
  | fail htry =>
    refine ⟨fun _ _ he => (by cases he), fun _ he => (by cases he), fun _ he => (by cases he),
      fun hs => ?_⟩
    rw [hleft hs] at htry
    cases htry
  | _ hpc =>
    refine ⟨fun _ _ he => (by cases he), fun _ he => (by cases he), fun _ he => (by cases he),
      fun hs => ?_⟩
    rw [hpc] at hleft
    cases hleft hs

theorem CompletedOk.step [FloatRepr F] [Sha256] (h : r.CompletedOk) (hstage : r.StageOk)
    {label : Label F} (hs : r.step label = some r') : r'.CompletedOk := by
  have hsame : ∀ s : ProgramRun F, s.toRunConfig = r.toRunConfig → s.points = r.points →
      s.originQ = r.originQ → s.finalReceived = r.finalReceived → s.calls = r.calls →
      s.pc = r.pc → (s.state = .completed → r.state = .completed) → s.CompletedOk := by
    intro s hcfg hpoints horigin hfinal hcalls hpc hstate
    have htargets : s.targets = r.targets := congrArg (List.filterMap BackendCall.target?) hcalls
    have hcongr : r.Completed → s.Completed :=
      fun hc => hc.congr hcfg hpoints horigin hfinal htargets
    exact ⟨fun q tUs he => (h.sending q tUs (hpc ▸ he)).congr hcfg hpoints horigin hfinal,
      fun tUs he => hcongr (h.sent tUs (hpc ▸ he)),
      fun o ho hs => hcongr (h.outcome o (hpc ▸ ho) hs), fun hs => hcongr (h.state (hstate hs))⟩
  refine step_induction hs h (fun c _ _ hc => ?_) (fun hstart => ?_)
    (fun _ _ => hsame _ rfl rfl rfl rfl rfl rfl id)
    (fun _ => hsame _ rfl rfl rfl rfl rfl rfl id) ?_ (h.executed hstage)
  · have hnot : ¬r.Completed := by
      rintro ⟨q, hq, -⟩
      rw [AtLast, hc.not_final] at hq
      cases hq.1
    refine ⟨fun q tUs he => ?_, fun tUs he => absurd (h.sent tUs he) hnot,
      fun o ho hs => absurd (h.outcome o ho hs) hnot, fun hs => absurd (h.state hs) hnot⟩
    have hq := h.sending q tUs he
    rw [AtLast, hc.not_final] at hq
    cases hq.1
  · obtain ⟨hpc, rfl⟩ := hstage.idle_of_start hstart
    exact ⟨fun _ _ he => (by cases he), fun _ he => (by cases he), fun _ he => (by cases he),
      fun hs => (by cases hs)⟩
  · unfold ProgramRun.connectionLost
    split
    · exact hsame _ rfl rfl rfl rfl rfl rfl fun hs => by cases hs
    · exact hsame _ rfl rfl rfl rfl rfl rfl id
    · exact h

/-! ## The end -/

section Reachable

variable [FloatRepr F] [Sha256]

/-- What is known of every run. -/
structure RunOk (r : ProgramRun F) : Prop where
  stage : r.StageOk
  backend : r.BackendOk
  events : r.EventsOk
  armed : r.ArmedOk
  completed : r.CompletedOk

omit [FloatTrunc F] [FloatRepr F] [Sha256] in
theorem runOk_init (cfg : RunConfig F) (now : F) : (init cfg now).RunOk where
  stage := stageOk_init cfg now
  backend := backendOk_init cfg now
  events := eventsOk_init cfg now
  armed := ⟨fun _ hm => (by rcases hm with hm | hm <;> cases hm), fun _ hm => (by cases hm)⟩
  completed := ⟨fun _ _ he => (by cases he), fun _ he => (by cases he), fun _ he => (by cases he),
    fun hs => (by cases hs)⟩

theorem RunOk.step (h : r.RunOk) {label : Label F} (hs : r.step label = some r') : r'.RunOk where
  stage := h.stage.step hs
  backend := h.backend.step h.stage hs
  events := h.events.step h.stage hs
  armed := h.armed.step h.stage h.backend hs
  completed := h.completed.step h.stage hs

theorem runOk_of_reachable {cfg : RunConfig F} {now : F}
    (h : Transition.Reachable step (init cfg now) r) : r.RunOk :=
  h.invariant (fun _ _ _ hr hs => hr.step hs) (runOk_init cfg now)

/-- Torque is requested where a finite pose has passed the start checks.  A thread that is through
has left a final state, set the terminal event, reported the run once and last, and closed its
backend once, by the last call; it requested torque at most once, and it completed only a whole
program whose resolved last point was the last target it had sent. -/
theorem execute_ends (cfg : RunConfig F) (now : F) (s : ProgramRun F)
    (hs : Transition.Reachable step (init cfg now) s) :
    (∀ m, s.pc = .enable m → s.Armed m) ∧
    (s.pc = .done →
      s.state.terminal = true ∧ s.terminalEvent = true ∧
      (∃ before snapshot o, s.events = before ++ [.runFinished snapshot o] ∧
        ∀ e ∈ before, e.isFinish = false) ∧
      (.created ∈ s.calls → ∃ before, s.calls = before ++ [.close] ∧ .close ∉ before) ∧
      s.calls.countP BackendCall.isEnable ≤ 1 ∧
      (∀ m, .enableAtCurrent m ∈ s.calls → s.Armed m) ∧
      (s.state = .completed → s.Completed)) := by
  have h := runOk_of_reachable hs
  refine ⟨fun m hm => h.armed.checked m (.inr hm), fun hdone => ?_⟩
  have hevents := h.events
  have hbackend := h.backend
  have hstate := h.stage.state
  rw [EventsOk, hdone] at hevents
  rw [BackendOk, hdone] at hbackend
  rw [hdone] at hstate
  refine ⟨hstate, hevents.1, hevents.2, fun hcreated => ?_, ?_, h.armed.enabled,
    h.completed.state⟩
  · rcases hbackend with hnone | hclosed
    · rw [hnone.eq_nil] at hcreated
      cases hcreated
    · exact hclosed.closed
  · rcases hbackend with hnone | hclosed
    · exact hnone.countP_isEnable.1
    · exact hclosed.countP_isEnable.1

end Reachable

end Executor

end ProgramRun

/-! ## A complete run -/

section Demo

open ProgramRun

/-- The start pose of the demo robot. -/
def demoStartPose : NdArray ℚ := ⟨[6], [0, 0, 0, 0, 0, 0], rfl⟩

/-- From the first chunk to the running loop. -/
def demoArming (c : Chunk ℚ) : List (ProgramRun.Label ℚ) :=
  [.append c, .start, .exec .returned, .exec (.array demoStartPose), .exec .internal,
    .exec .internal, .exec .returned, .exec .internal, .exec .internal, .exec (.clock 0)]

/-- A tick that reads the clock at `now`, up to the publishing of its target. -/
def demoTick (now : ℚ) : List (ProgramRun.Label ℚ) :=
  [.exec (.clock now), .exec .internal, .exec .internal, .exec (.pose (demoPose 0)),
    .exec .returned, .exec .internal]

/-- The tick behind the end, the hold, the close and the report. -/
def demoClosing : List (ProgramRun.Label ℚ) :=
  [.exec .internal, .exec (.clock 0), .heartbeat 4, .exec (.clock 5), .exec .internal,
    .exec .internal, .exec .returned, .exec .internal, .exec (.pose (demoPose 0)), .exec .returned,
    .exec .returned, .exec .internal, .exec .internal, .exec .internal]

local instance executionHash : Sha256 := lengthHash

/-- The demo program in one chunk, from its upload to its end. -/
def demoRun : List (ProgramRun.Label ℚ) :=
  demoArming (demoChunk 0 demoPoints true) ++ demoTick 0 ++ demoClosing

def Pc.isDone : Pc F → Bool
  | .done => true
  | _ => false

theorem Pc.eq_done {pc : Pc F} (h : pc.isDone = true) : pc = .done := by
  cases pc <;> first | rfl | cases h

theorem execute_ends_demo :
    ∃ s, Transition.run step (init (demoConfig .sealed demoDigest) 0) demoRun = some s ∧
      s.state = .completed ∧ s.terminalEvent = true ∧
      (∃ before, s.calls = before ++ [.close] ∧ .close ∉ before) ∧ s.Completed := by
  have hrun : ((Transition.run step (init (demoConfig .sealed demoDigest) 0) demoRun).map fun s =>
      (s.state, s.pc.isDone, s.calls.any fun c => match c with
        | .created => true
        | _ => false)) = some (.completed, true, true) := by decide +kernel
  obtain ⟨s, hs, he⟩ := Option.map_eq_some_iff.1 hrun
  simp only [Prod.mk.injEq, List.any_eq_true] at he
  obtain ⟨hstate, hdone, c, hc, hcreated⟩ := he
  obtain ⟨-, hterminal, -, hclose, -, -, hcompleted⟩ :=
    (execute_ends (demoConfig .sealed demoDigest) 0 s ⟨_, hs⟩).2 (Pc.eq_done hdone)
  refine ⟨s, hs, hstate, hterminal, hclose ?_, hcompleted hstate⟩
  cases c <;> first | exact hc | cases hcreated

end Demo

end RemoteRobot.Stream
