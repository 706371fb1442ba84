import RemoteRobot.Worker.Host
import RemoteRobot.Worker.Atomic

/-!
# The call that arrives

What `_dispatch` makes of a request that went through a frame: the call that was made, with the
argument as it reads back.  The worker cannot tell the two apart (`Twin`): it works on canonical
copies of its arguments.
-/

namespace RemoteRobot.Worker

open Py Except

open Ipc (Sendable expectExactKeys reads_envelope)

variable {F : Type}

/-! ## Requests -/

/-- The argument is what the argument of the first call reads back as. -/
def Call.Reads : Call F → Call F → Prop
  | .prepareDisabled, .prepareDisabled | .state, .state | .close, .close => True
  | .preparePhase v, .preparePhase w | .startPhase v, .startPhase w | .stop v, .stop w => v.Reads w
  | _, _ => False

theorem Call.Reads.isClose {c c' : Call F} (h : c.Reads c') : c'.isClose = c.isClose := by
  cases c <;> cases c' <;> first | rfl | exact h.elim

/-- The argument may be sent. -/
def Call.Sendable [PyFloat F] : Call F → Prop
  | .preparePhase v | .startPhase v | .stop v => Ipc.Sendable v
  | _ => True

/-- `prepare_phase` and `stop` take a dictionary. -/
def Call.HasDict : Call F → Prop
  | .preparePhase v | .stop v => ∃ kvs, v = .dict kvs
  | _ => True

/-- What `_dispatch` raises for an argument that is no dictionary. -/
def Call.mappingError : Call F → WorkerError F
  | .stop _ => schemaError "fault_context must be a mapping"
  | _ => schemaError "phase_plan must be a mapping"

theorem Call.method_ne_nil (c : Call F) : c.method ≠ [] := by
  cases c <;> exact fun h => nomatch (py_inj (t := "")).1 h

section Dispatch

variable [PyFloat F]

theorem requireParams_eq_ok {params : Dict F} {required : List String}
    (h : expectExactKeys params required = .ok ()) : requireParams params required = .ok () := by
  unfold expectExactKeys at h
  simp only [bind_eq_ok, exists_unit, raiseWhen_eq_ok, not_not, Bool.not_eq_false] at h
  unfold requireParams
  simp only [raiseWhen_eq_ok, not_or, not_not, Bool.not_eq_false]
  exact h

/-- The one parameter of a request. -/
theorem reads_param {k : String} {v : Val F} {params : Dict F}
    (h : (Val.dict (entries [(k, v)])).Reads (.dict params)) :
    requireParams params [k] = .ok () ∧ v.Reads (field k params) := by
  obtain ⟨hkeys, hfields⟩ :=
    reads_envelope (show (dictOf [(k, v)]).Reads _ from h) (List.nodup_singleton k)
  exact ⟨requireParams_eq_ok hkeys, hfields k v (by simp)⟩

theorem dispatch_reads {c : Call F} {params : Dict F}
    (h : (Val.dict c.params).Reads (.dict params)) (hdict : c.HasDict) :
    ∃ c', dispatch c.method params = .ok c' ∧ c.Reads c' := by
  have hnone : c.params = [] → requireParams params [] = .ok () := by
    intro hp
    rw [hp] at h
    have hempty : (dictOf []).Reads (.dict params) := h
    exact requireParams_eq_ok (reads_envelope hempty List.nodup_nil).1
  unfold dispatch
  cases c with
  | prepareDisabled =>
    refine ⟨.prepareDisabled, ?_, trivial⟩
    simp only [Call.method, if_true, hnone rfl]
    rfl
  | preparePhase v =>
    obtain ⟨hrequired, hv⟩ := reads_param h
    obtain ⟨kvs, rfl⟩ := hdict
    obtain ⟨plan, hplan⟩ := Ipc.reads_dict hv
    refine ⟨.preparePhase (.dict plan), ?_, hplan ▸ hv⟩
    simp only [Call.method, py_inj, String.reduceEq, if_false, if_true, hrequired, hplan]
    rfl
  | startPhase v =>
    obtain ⟨hrequired, hv⟩ := reads_param h
    refine ⟨.startPhase (field "monotonic_deadline_us" params), ?_, hv⟩
    simp only [Call.method, py_inj, String.reduceEq, if_false, if_true, hrequired]
    rfl
  | stop v =>
    obtain ⟨hrequired, hv⟩ := reads_param h
    obtain ⟨kvs, rfl⟩ := hdict
    obtain ⟨context, hcontext⟩ := Ipc.reads_dict hv
    refine ⟨.stop (.dict context), ?_, hcontext ▸ hv⟩
    simp only [Call.method, py_inj, String.reduceEq, if_false, if_true, hrequired, hcontext]
    rfl
  | state =>
    refine ⟨.state, ?_, trivial⟩
    simp only [Call.method, py_inj, String.reduceEq, if_false, if_true, hnone rfl]
    rfl
  | close =>
    refine ⟨.close, ?_, trivial⟩
    simp only [Call.method, py_inj, String.reduceEq, if_false, if_true, hnone rfl]
    rfl

omit [PyFloat F] in
/-- What is no dictionary is none behind the frame either. -/
theorem not_dict_reads {v w : Val F} (h : v.Reads w) (hv : ¬∃ kvs, v = .dict kvs) :
    ¬∃ kvs, w = .dict kvs := by
  rintro ⟨kvs, rfl⟩
  cases v with
  | dict kvs => exact hv ⟨kvs, rfl⟩
  | list vs | tuple vs =>
    obtain ⟨ws, he, -⟩ := h
    cases he
  | _ => exact nomatch (show Val.dict kvs = _ from h)

theorem dispatch_refuses {c : Call F} {params : Dict F}
    (h : (Val.dict c.params).Reads (.dict params)) (hdict : ¬c.HasDict) :
    dispatch c.method params = .error c.mappingError := by
  unfold dispatch
  cases c with
  | preparePhase v =>
    obtain ⟨hrequired, hv⟩ := reads_param h
    simp only [Call.method, py_inj, String.reduceEq, if_false, if_true, hrequired]
    simp only [bind, Except.bind]
    split
    · rename_i plan hplan
      exact absurd ⟨plan, hplan⟩ (not_dict_reads hv hdict)
    · rfl
  | stop v =>
    obtain ⟨hrequired, hv⟩ := reads_param h
    simp only [Call.method, py_inj, String.reduceEq, if_false, if_true, hrequired]
    simp only [bind, Except.bind]
    split
    · rename_i context hcontext
      exact absurd ⟨context, hcontext⟩ (not_dict_reads hv hdict)
    · rfl
  | _ => exact absurd trivial hdict

end Dispatch

/-! ## The worker -/

section Copies

variable [PyFloat F] [Cbor F] [PlainCbor F]

/-- The copy of an argument does not tell whether the argument was received. -/
theorem dataCopy_reads {v w : Val F} (hv : Sendable v) (h : v.Reads w) : dataCopy w = dataCopy v := by
  by_cases hdict : ∃ kvs, v = .dict kvs
  · obtain ⟨kvs, rfl⟩ := hdict
    obtain ⟨kvs', rfl⟩ := Ipc.reads_dict h
    have hvalid : ∀ u : Val F, Sendable u → Ipc.validateValue u (py "$") 0 = .ok () := fun u hu =>
      Ipc.validateValue_eq_ok.2 ⟨hu.1, by simpa using hu.2⟩
    unfold dataCopy Ipc.canonicalPayload
    simp only [hvalid _ hv, hvalid _ (hv.reads h), PlainCbor.dumps_reads _ _ h]
  · have hrefused : ∀ u : Val F, (¬∃ kvs, u = .dict kvs) →
        dataCopy u = .error (.schema ⟨"$: IPC messages must be mappings", []⟩) := by
      intro u hu
      cases u with
      | dict kvs => exact absurd ⟨kvs, rfl⟩ hu
      | _ => rfl
    rw [hrefused v hdict, hrefused w (not_dict_reads h hdict)]

/-! ## Python values -/

namespace InMemoryWorker

/-- The events in the queue are Python values. -/
def Sound (w : InMemoryWorker F) : Prop := ∀ e ∈ w.events, (Val.dict e).wellFormed = true

variable {w : InMemoryWorker F}

omit [Cbor F] [PlainCbor F] in
theorem Sound.congr {w' : InMemoryWorker F} (h : Sound w) (he : w'.events = w.events) : Sound w' :=
  fun e hm => h e (he ▸ hm)

theorem Sound.emit (h : Sound w) (event : List (String × Val F)) : Sound (w.emit event).2 := by
  obtain ⟨e, he⟩ | ⟨copy, hcopy, -, he⟩ := w.emit_cases event
  · rw [he]
    exact h
  · rw [he]
    intro e hm
    obtain hm | hm := List.mem_append.1 hm
    · exact h e hm
    · obtain rfl := List.mem_singleton.1 hm
      exact wellFormed_of_dataCopy hcopy

/-- What the call returns is a Python value, and so are the events behind it. -/
def SoundOutcome (x : Outcome F) : Prop :=
  (∀ result, x.1 = .ok result → (Val.dict result).wellFormed = true) ∧ Sound x.2

omit [Cbor F] [PlainCbor F] in
theorem soundOutcome_error {e : WorkerError F} (h : Sound w) : SoundOutcome (.error e, w) :=
  ⟨fun _ hr => (nomatch hr), h⟩

theorem Sound.emitResult (h : Sound w) {type : String} {result : List (String × Val F)}
    (hresult : (dictOf result).wellFormed = true) : SoundOutcome (w.emitResult type result) := by
  have hemit := h.emit (("type", .str (py type)) :: result)
  unfold InMemoryWorker.emitResult
  split
  · rename_i e w' he
    rw [he] at hemit
    exact soundOutcome_error hemit
  · rename_i w' he
    rw [he] at hemit
    exact ⟨fun _ hr => Except.ok.inj hr ▸ hresult, hemit⟩

theorem Sound.prepareDisabled (h : Sound w) : SoundOutcome w.prepareDisabled := by
  unfold InMemoryWorker.prepareDisabled
  split_ifs
  · exact soundOutcome_error h
  · exact soundOutcome_error h
  · have hdisabled : Sound { w with status := .disabled, phasePlan := none } := h.congr rfl
    refine hdisabled.emitResult (wellFormed_dictOf ?_ ?_)
    · simp [disabledResult]
    · simp [disabledResult, Val.wellFormed, Status.toVal]

variable [PyText F]

theorem Sound.preparePhase (h : Sound w) (phasePlan : Val F) :
    SoundOutcome (w.preparePhase phasePlan) := by
  obtain ⟨e, he⟩ | ⟨-, plan, -, ⟨e, -, he⟩ | ⟨-, he⟩⟩ := w.preparePhase_cases phasePlan <;> rw [he]
  · exact soundOutcome_error h
  · exact soundOutcome_error (h.congr rfl)
  · have hprepared : Sound (w.withPlan plan) := h.congr rfl
    refine hprepared.emitResult (wellFormed_dictOf ?_ ?_)
    · simp [preparedResult, phaseIdentity, identityFields]
    · simp [preparedResult, phaseIdentity, identityFields, Val.wellFormed, Status.toVal]

omit [Cbor F] [PlainCbor F] in
theorem Sound.startPhase (h : Sound w) (deadlineUs : Val F) (task : ℕ) :
    SoundOutcome (w.startPhase deadlineUs task) := by
  obtain ⟨e, he⟩ | ⟨n, -, -, -, he⟩ := w.startPhase_cases deadlineUs task <;> rw [he]
  · exact soundOutcome_error h
  · refine ⟨fun result hr => Except.ok.inj hr ▸ wellFormed_dictOf ?_ ?_, h.congr rfl⟩
    · simp [scheduledResult, phaseIdentity, identityFields]
    · simp [scheduledResult, phaseIdentity, identityFields, Val.wellFormed, Status.toVal]

theorem Sound.stopFinish (h : Sound w) (faultContext : Val F) :
    SoundOutcome (w.stopFinish faultContext) := by
  obtain ⟨e, he⟩ | ⟨context, hcopy, he⟩ := w.stopFinish_cases faultContext <;> rw [he]
  · exact soundOutcome_error h
  · have hstopped : Sound (w.withStop context) := h.congr rfl
    refine hstopped.emitResult (wellFormed_dictOf ?_ ?_)
    · simp [stoppedResult, phaseIdentity, identityFields]
    · simpa [stoppedResult, phaseIdentity, identityFields, Val.wellFormed, Status.toVal] using
        wellFormed_of_dataCopy hcopy

theorem state_wellFormed {result : Dict F} (h : w.state = .ok result) :
    (Val.dict result).wellFormed = true := by
  unfold state at h
  split_ifs at h
  split at h
  · cases h
  · rename_i copy hcopy
    exact Except.ok.inj h ▸ wellFormed_of_dataCopy hcopy

end InMemoryWorker

/-! ## Answers -/

omit [Cbor F] [PlainCbor F] in
/-- What the call may return or raise: `close` returns nothing, and always. -/
def Call.Answers (c : Call F) : Except (WorkerError F) (Val F) → Prop
  | .ok v => if c.isClose then v = .none else ∃ d, v = .dict d ∧ (Val.dict d).wellFormed = true
  | .error _ => c.isClose = false

/-- The call ends at once. -/
def System.Ends (s : System F) (c : Call F) (x : Reply F × System F) : Prop :=
  ∃ r, x.1 = some r ∧ c.Answers r ∧ x.2.worker.Sound ∧ x.2.waiting = s.waiting ∧
    (c.isClose = true → x.2.worker.status = .closed)

omit [Cbor F] [PlainCbor F] in
theorem Call.answers_map {c : Call F} (hc : c.isClose = false) {r : Except (WorkerError F) (Dict F)}
    (h : ∀ result, r = .ok result → (Val.dict result).wellFormed = true) :
    c.Answers (r.map .dict) := by
  cases r with
  | error e => exact hc
  | ok result =>
    show if c.isClose then _ else _
    rw [hc]
    exact ⟨result, rfl, h result rfl⟩

namespace System

variable [PyText F] {s : System F}

omit [PyText F] [Cbor F] [PlainCbor F] in
/-- A call that ends with an outcome of the worker. -/
theorem ends_outcome {c : Call F} (hc : c.isClose = false) {x : Outcome F}
    (h : InMemoryWorker.SoundOutcome x) {y : Reply F × System F}
    (hreply : y.1 = some (x.1.map .dict)) (hworker : y.2.worker = x.2)
    (hwaiting : y.2.waiting = s.waiting) : s.Ends c y := by
  refine ⟨_, hreply, c.answers_map hc h.1, ?_, hwaiting, fun he => absurd he (by simp [hc])⟩
  rw [hworker]
  exact h.2

omit [PyText F] [Cbor F] [PlainCbor F] in
theorem ends_answer {c : Call F} (hc : c.isClose = false) {x : Outcome F}
    (h : InMemoryWorker.SoundOutcome x) : s.Ends c (s.answer x) :=
  ends_outcome hc h rfl rfl rfl

theorem ends_preparePhase (h : s.worker.Sound) (phasePlan : Val F) :
    s.Ends (.preparePhase phasePlan) (s.call (.preparePhase phasePlan)) := by
  have hprepare := h.preparePhase phasePlan
  simp only [System.call]
  split <;> rename_i he <;> rw [he] at hprepare <;> exact ends_outcome rfl hprepare rfl rfl rfl

omit [PlainCbor F] in
theorem ends_startPhase (h : s.worker.Sound) (deadlineUs : Val F) :
    s.Ends (.startPhase deadlineUs) (s.call (.startPhase deadlineUs)) := by
  have hstart := h.startPhase deadlineUs s.tasks.length
  simp only [System.call]
  split <;> rename_i he <;> rw [he] at hstart <;> exact ends_outcome rfl hstart rfl rfl rfl

theorem ends_finishStop (h : s.worker.Sound) {c : Call F} (hc : c.isClose = false)
    (faultContext : Val F) : s.Ends c (s.finishStop faultContext) := by
  have hstop := h.stopFinish faultContext
  unfold finishStop
  split <;> rename_i he <;> rw [he] at hstop <;> exact ends_outcome hc hstop rfl rfl rfl

omit [PlainCbor F] in
theorem finishStop_congr {v w : Val F} (h : dataCopy w = dataCopy v) :
    s.finishStop w = s.finishStop v := by
  unfold finishStop InMemoryWorker.stopFinish
  rw [h]

end System

end Copies

/-! ## The worker in the process and the worker alone -/

section Twins

variable [PyFloat F] [PyText F] [Cbor F]

/-- The waiting call is this one, whether it was received or made. -/
def Call.Waits : Call F → Waiting F → Prop
  | .stop v, .stop w _ => (∃ kvs, v = .dict kvs) ∧ dataCopy w = dataCopy v
  | .close, .close _ => True
  | _, _ => False

variable [PlainCbor F] {s t s' : System F}

omit [PyFloat F] [Cbor F] [PlainCbor F] in
theorem InMemoryWorker.startPhase_reads {v w : Val F} (h : v.Reads w) (x : InMemoryWorker F)
    (task : ℕ) : x.startPhase w task = x.startPhase v task := by
  cases v with
  | dict kvs =>
    obtain ⟨kvs', rfl⟩ := Ipc.reads_dict h
    rfl
  | list vs | tuple vs =>
    obtain ⟨ws, rfl, -⟩ := h
    rfl
  | _ => rw [show w = _ from h]

theorem InMemoryWorker.preparePhase_reads {v w : Val F} (hv : Sendable v) (h : v.Reads w)
    (x : InMemoryWorker F) : x.preparePhase w = x.preparePhase v := by
  have hcopy := dataCopy_reads hv h
  unfold preparePhase
  cases v with
  | dict kvs =>
    obtain ⟨kvs', rfl⟩ := Ipc.reads_dict h
    simp only [hcopy]
  | list vs | tuple vs =>
    obtain ⟨ws, rfl, -⟩ := h
    rfl
  | _ => rw [show w = _ from h]

omit [PyFloat F] [PyText F] [Cbor F] [PlainCbor F] in
theorem InMemoryWorker.stopChecks_reads {v w : Val F} (h : v.Reads w) (x : InMemoryWorker F) :
    x.stopChecks w = x.stopChecks v := by
  unfold stopChecks
  cases v with
  | dict kvs =>
    obtain ⟨kvs', rfl⟩ := Ipc.reads_dict h
    rfl
  | list vs | tuple vs =>
    obtain ⟨ws, rfl, -⟩ := h
    rfl
  | _ => rw [show w = _ from h]

omit [PyFloat F] [PyText F] [Cbor F] [PlainCbor F] in
theorem InMemoryWorker.dict_of_stopChecks {v : Val F} {x : InMemoryWorker F}
    (h : x.stopChecks v = .ok ()) : ∃ kvs, v = .dict kvs := by
  unfold stopChecks at h
  split_ifs at h
  split at h
  · rename_i kvs
    exact ⟨kvs, rfl⟩
  · cases h

omit [PlainCbor F] in
/-- The worker refuses what the dispatcher refuses. -/
theorem System.call_refuses {c : Call F} (h : ¬c.HasDict) : ∃ e, s.call c = (some (.error e), s) := by
  cases c with
  | preparePhase v =>
    have hrefused : ∃ e, s.worker.preparePhase v = (.error e, s.worker) := by
      unfold InMemoryWorker.preparePhase
      split_ifs
      · exact ⟨_, rfl⟩
      · exact ⟨_, rfl⟩
      · split
        · exact absurd ⟨_, rfl⟩ h
        · exact ⟨_, rfl⟩
    obtain ⟨e, he⟩ := hrefused
    refine ⟨e, ?_⟩
    simp only [System.call, he]
  | stop v =>
    have hrefused : ∃ e, s.worker.stopChecks v = .error e := by
      unfold InMemoryWorker.stopChecks
      split_ifs
      · exact ⟨_, rfl⟩
      · split
        · exact absurd ⟨_, rfl⟩ h
        · exact ⟨_, rfl⟩
    obtain ⟨e, he⟩ := hrefused
    refine ⟨e, ?_⟩
    simp only [System.call, he]
  | _ => exact absurd trivial h

omit [PlainCbor F] in
/-- A closed worker refuses every call but `close`. -/
theorem System.call_closed (h : s.worker.status = .closed) (c : Call F) :
    s.call c = (some (if c.isClose then .ok .none else .error closedError), s) := by
  cases c with
  | prepareDisabled =>
    simp [System.call, System.answer, InMemoryWorker.prepareDisabled, h, Call.isClose]
    rfl
  | preparePhase v => simp [System.call, InMemoryWorker.preparePhase, h, Call.isClose]
  | startPhase v => simp [System.call, InMemoryWorker.startPhase, h, Call.isClose]
  | stop v => simp [System.call, InMemoryWorker.stopChecks, h, Call.isClose]
  | state =>
    simp [System.call, InMemoryWorker.state, h, Call.isClose]
    rfl
  | close => simp [System.call, h, Call.isClose]

/-- The task is cancelled, or there is none. -/
def System.Cancelled (s : System F) (i : ℕ) : Prop :=
  ∀ u : PhaseTask F, s.tasks[i]? = some u → u.cancelled = true

omit [PyFloat F] [PyText F] [Cbor F] [PlainCbor F] in
theorem System.cancelled_modify (tasks : List (PhaseTask F)) (i : ℕ) (u : PhaseTask F)
    (h : (tasks.modify i fun u => { u with cancelled := true })[i]? = some u) :
    u.cancelled = true := by
  rw [List.getElem?_modify_eq] at h
  obtain ⟨u, -, rfl⟩ := Option.map_eq_some_iff.1 h
  rfl

omit [PlainCbor F] in
/-- A cancelled task ends at its next step. -/
theorem System.wake_cancelled {i : ℕ} {u : PhaseTask F} (hu : s.tasks[i]? = some u)
    (hcancelled : u.cancelled = true) (hopen : u.stage ≠ .done) :
    ∃ s', s.wake i u = some s' ∧ s'.waiting = s.waiting ∧
      s'.tasks[i]?.map PhaseTask.stage = some .done := by
  have hdone : (s.tasks.modify i fun t => { t with stage := .done })[i]?.map PhaseTask.stage =
      some .done := by
    rw [List.getElem?_modify_eq, hu]
    rfl
  unfold System.wake
  cases hstage : u.stage with
  | created => exact ⟨s.setStage i .done, if_pos hcancelled, rfl, hdone⟩
  | sleeping untilUs => exact ⟨s.leave i, if_pos hcancelled, rfl, hdone⟩
  | working actualStartUs untilUs => exact ⟨s.leave i, if_pos hcancelled, rfl, hdone⟩
  | done => exact absurd hstage hopen

/-- The call that was received does what the call that was made would do. -/
theorem System.call_reads {c c' : Call F} (h : s.worker.Sound) (hr : c.Reads c') (hc : c.Sendable) :
    (s.call c' = s.call c ∧ s.Ends c (s.call c)) ∨
    ∃ (m : System F) (u w : Waiting F), s.call c' = (none, { m with waiting := s.waiting ++ [u] }) ∧
      s.call c = (none, { m with waiting := s.waiting ++ [w] }) ∧ c.Waits u ∧ c.Waits w ∧
      u.task = w.task ∧ m.worker.Sound ∧ m.Cancelled u.task := by
  cases c with
  | prepareDisabled =>
    cases c' with
    | prepareDisabled => exact .inl ⟨rfl, ends_answer rfl h.prepareDisabled⟩
    | _ => exact hr.elim
  | preparePhase v =>
    cases c' with
    | preparePhase w =>
      have hsame : s.call (.preparePhase w) = s.call (.preparePhase v) := by
        simp only [System.call, InMemoryWorker.preparePhase_reads hc hr]
      exact .inl ⟨hsame, ends_preparePhase h v⟩
    | _ => exact hr.elim
  | startPhase v =>
    cases c' with
    | startPhase w =>
      have hsame : s.call (.startPhase w) = s.call (.startPhase v) := by
        simp only [System.call, InMemoryWorker.startPhase_reads hr]
      exact .inl ⟨hsame, ends_startPhase h v⟩
    | _ => exact hr.elim
  | stop v =>
    cases c' with
    | stop w =>
      have hcopy := dataCopy_reads hc hr
      simp only [System.call, InMemoryWorker.stopChecks_reads hr]
      split
      · exact .inl ⟨rfl, _, rfl, rfl, h, rfl, fun he => by cases he⟩
      · rename_i hchecks
        have hdict : ∃ kvs, v = .dict kvs := InMemoryWorker.dict_of_stopChecks hchecks
        unfold System.cancelPhaseTask
        cases s.worker.phaseTask with
        | none => exact .inl ⟨finishStop_congr hcopy, ends_finishStop h rfl v⟩
        | some i => exact .inr ⟨_, .stop w i, .stop v i, rfl, rfl, ⟨hdict, hcopy⟩, ⟨hdict, rfl⟩, rfl,
            h.congr rfl, cancelled_modify s.tasks i⟩
    | _ => exact hr.elim
  | state =>
    cases c' with
    | state =>
      exact .inl ⟨rfl, _, rfl, Call.answers_map rfl fun _ he => InMemoryWorker.state_wellFormed he,
        h, rfl, fun he => by cases he⟩
    | _ => exact hr.elim
  | close =>
    cases c' with
    | close =>
      simp only [System.call]
      split
      · rename_i hclosed
        exact .inl ⟨trivial, _, rfl, rfl, h, rfl, fun _ => hclosed⟩
      · unfold System.cancelPhaseTask
        cases s.worker.phaseTask with
        | none => exact .inl ⟨trivial, _, rfl, rfl, h.congr rfl, rfl, fun _ => rfl⟩
        | some i => exact .inr ⟨_, .close i, .close i, rfl, rfl, trivial, trivial, rfl, h.congr rfl,
            cancelled_modify s.tasks i⟩
    | _ => exact hr.elim

/-- `s` is the worker in the process, `t` the worker alone, `current` the call that waits. -/
structure Twin (current : Option (Call F)) (s t : System F) : Prop where
  rest : t = { s with waiting := t.waiting }
  idle : current = none → s.waiting = [] ∧ t.waiting = []
  busy : ∀ c, current = some c → ∃ u w, s.waiting = [u] ∧ t.waiting = [w] ∧ c.Waits u ∧ c.Waits w ∧
    u.task = w.task ∧ s.Cancelled u.task
  sound : s.worker.Sound

omit [PyText F] [PlainCbor F] in
theorem Twin.eq (h : Twin none s t) : t = s := by
  obtain ⟨hs, ht⟩ := h.idle rfl
  rw [h.rest, ht, ← hs]

omit [PyText F] [PlainCbor F] in
theorem twin_self (hw : s.waiting = []) (h : s.worker.Sound) : Twin none s s :=
  ⟨rfl, fun _ => ⟨hw, hw⟩, fun _ hc => (nomatch hc), h⟩

/-- Both answer the call, or both wait for the phase task. -/
theorem Twin.call (h : Twin none s t) {c c' : Call F} (hr : c.Reads c') (hc : c.Sendable) :
    (∃ r m, s.call c' = (some r, m) ∧ t.call c = (some r, m) ∧ c.Answers r ∧ Twin none m m ∧
      (c.isClose = true → m.worker.status = .closed)) ∨
    ∃ m m', s.call c' = (none, m) ∧ t.call c = (none, m') ∧ Twin (some c) m m' := by
  obtain rfl := h.eq
  have hw := (h.idle rfl).1
  obtain ⟨hsame, r, hr, hanswers, hsound, hwaiting, hclosed⟩ |
    ⟨m, u, w, hu, hcall, hcu, hcw, htask, hsound, hcancelled⟩ := System.call_reads h.sound hr hc
  · refine .inl ⟨r, (t.call c).2, ?_, ?_, hanswers, twin_self (hwaiting.trans hw) hsound, hclosed⟩
    · rw [hsame, ← hr]
    · rw [← hr]
  · rw [hw] at hu hcall
    refine .inr ⟨_, _, hu, hcall, rfl, fun hn => (nomatch hn), fun c₁ hc₁ => ?_, hsound⟩
    obtain rfl := Option.some.inj hc₁
    exact ⟨u, w, rfl, rfl, hcu, hcw, htask, hcancelled⟩

omit [PyText F] [PlainCbor F] in
/-- A call waits behind the checks of its argument. -/
theorem Twin.hasDict {c : Call F} (h : Twin (some c) s t) : c.HasDict := by
  obtain ⟨u, w, -, -, hcu, -⟩ := h.busy c rfl
  cases c with
  | stop v =>
    cases u with
    | stop v₁ i => exact hcu.1
    | close i => exact hcu.elim
  | close => trivial
  | _ => exact hcu.elim

/-- The waiting call goes on in both. -/
theorem Twin.resume {c : Call F} (h : Twin (some c) s t) {x : Reply F × System F}
    (hstep : s.react (.resume 0) = some x) :
    ∃ r m, x = (some r, m) ∧ t.react (.resume 0) = some (some r, m) ∧ c.Answers r ∧
      Twin none m m ∧ (c.isClose = true → m.worker.status = .closed) := by
  obtain ⟨u, w, hu, hw, hcu, hcw, htask, -⟩ := h.busy c rfl
  obtain rfl : t = { s with waiting := [w] } := by rw [h.rest, hw]
  simp only [System.react, hu, List.getElem?_cons_zero, Option.bind_some, System.resume, htask,
    List.eraseIdx_cons_zero] at hstep ⊢
  have hsound : ({ s with waiting := [] } : System F).worker.Sound := h.sound
  split_ifs at hstep ⊢ with hended
  cases c with
  | stop v =>
    cases u with
    | stop v₁ i =>
      cases w with
      | stop v₂ j =>
        have hsame : ({ s with waiting := [] } : System F).finishStop v₁ =
            ({ s with waiting := [] } : System F).finishStop v₂ :=
          System.finishStop_congr (hcu.2.trans hcw.2.symm)
        obtain ⟨r, hr, hanswers, hm, hwaiting, hclosed⟩ :=
          System.ends_finishStop (c := .stop v) hsound rfl v₂
        obtain rfl := Option.some.inj hstep
        simp only [hsame]
        exact ⟨r, _, by rw [← hr], by rw [← hr], hanswers, twin_self hwaiting hm, hclosed⟩
      | close j => exact hcw.elim
    | close i => exact hcu.elim
  | close =>
    cases u with
    | close i =>
      cases w with
      | close j =>
        obtain rfl := Option.some.inj hstep
        exact ⟨.ok .none, _, rfl, rfl, rfl, twin_self rfl (hsound.congr rfl), fun _ => rfl⟩
      | stop v₂ j => exact hcw.elim
    | stop v₁ i => exact hcu.elim
  | _ => exact hcu.elim

/-! ### Steps between the calls -/

omit [PlainCbor F] in
theorem System.finishPhase_waiting (ws : List (Waiting F)) (i : ℕ) (deadlineUs actualStartUs : ℤ) :
    ({ s with waiting := ws } : System F).finishPhase i deadlineUs actualStartUs =
      { s.finishPhase i deadlineUs actualStartUs with waiting := ws } := by
  unfold System.finishPhase
  simp only
  split_ifs
  · split <;> rfl
  · rfl

omit [PlainCbor F] in
theorem System.enterPhase_waiting (ws : List (Waiting F)) (i : ℕ) (deadlineUs : ℤ) :
    ({ s with waiting := ws } : System F).enterPhase i deadlineUs =
      { s.enterPhase i deadlineUs with waiting := ws } := by
  unfold System.enterPhase
  simp only
  split_ifs
  · split
    · rfl
    · split_ifs
      · exact System.finishPhase_waiting (s := s.record i .started _) ws i deadlineUs s.nowUs
      · rfl
  · rfl

omit [PlainCbor F] in
/-- The tasks do not look at the waiting calls. -/
theorem System.wake_waiting (ws : List (Waiting F)) (i : ℕ) (u : PhaseTask F) :
    ({ s with waiting := ws } : System F).wake i u =
      (s.wake i u).map fun s' => { s' with waiting := ws } := by
  unfold System.wake
  simp only [System.enterPhase_waiting, System.finishPhase_waiting]
  split
  · split_ifs <;> rfl
  · split_ifs <;> rfl
  · split_ifs <;> rfl
  · rfl

omit [PyText F] [Cbor F] [PlainCbor F] in
theorem System.sound_leave (h : s.worker.Sound) (i : ℕ) : (s.leave i).worker.Sound := by
  unfold System.leave
  simp only
  split_ifs
  · exact h.congr rfl
  · exact h

theorem System.finishPhase_sound (h : s.worker.Sound) (i : ℕ) (deadlineUs actualStartUs : ℤ) :
    (s.finishPhase i deadlineUs actualStartUs).worker.Sound := by
  have hcompleted : ({ s.worker with status := .completed } : InMemoryWorker F).Sound := h.congr rfl
  have hemit : (s.worker.complete deadlineUs actualStartUs s.nowUs).2.Sound := hcompleted.emit _
  unfold System.finishPhase
  split_ifs
  · split
    · rename_i e w he
      rw [he] at hemit
      exact sound_leave hemit i
    · rename_i w he
      rw [he] at hemit
      exact sound_leave hemit i
  · exact sound_leave h i

theorem System.enterPhase_sound (h : s.worker.Sound) (i : ℕ) (deadlineUs : ℤ) :
    (s.enterPhase i deadlineUs).worker.Sound := by
  have hrunning : ({ s.worker with status := .running } : InMemoryWorker F).Sound := h.congr rfl
  have hemit : (s.worker.startRunning deadlineUs s.nowUs).2.Sound := hrunning.emit _
  unfold System.enterPhase
  split_ifs
  · split
    · rename_i e w he
      rw [he] at hemit
      exact sound_leave hemit i
    · rename_i w he
      rw [he] at hemit
      have hstarted : (s.record i .started w).worker.Sound := hemit
      split_ifs
      · exact finishPhase_sound hstarted i deadlineUs s.nowUs
      · exact hemit
  · exact sound_leave h i

theorem System.wake_sound (h : s.worker.Sound) {i : ℕ} {u : PhaseTask F}
    (hstep : s.wake i u = some s') : s'.worker.Sound := by
  unfold System.wake at hstep
  split at hstep
  · split_ifs at hstep <;> obtain rfl := Option.some.inj hstep
    · exact h
    · exact h
    · exact enterPhase_sound h i u.deadlineUs
  · split_ifs at hstep <;> obtain rfl := Option.some.inj hstep
    · exact sound_leave h i
    · exact enterPhase_sound h i u.deadlineUs
  · split_ifs at hstep <;> obtain rfl := Option.some.inj hstep
    · exact sound_leave h i
    · exact finishPhase_sound h i u.deadlineUs _
  · cases hstep

/-- A label of the phase tasks or of the clock. -/
def Label.IsInner : Label F → Prop
  | .wake _ | .tick _ => True
  | _ => False

omit [PlainCbor F] in
/-- A cancelled task stays cancelled. -/
theorem System.Cancelled.wake {i j : ℕ} (h : s.Cancelled j) {u : PhaseTask F}
    (hstep : s.wake i u = some s') : s'.Cancelled j := by
  have hmoved : ∃ stage new, Moved s s' i stage new := by
    cases woken_of_wake hstep <;> exact ⟨_, _, ‹_›⟩
  obtain ⟨stage, new, hm⟩ := hmoved
  intro v hv
  rw [hm.tasks, List.getElem?_modify] at hv
  obtain ⟨old, hold, rfl⟩ := Option.map_eq_some_iff.1 hv
  split_ifs
  · exact h old hold
  · exact h old hold

omit [PlainCbor F] in
/-- Nothing happens in a closed worker. -/
theorem System.wake_closed (h : s.worker.status = .closed) {i : ℕ} {u : PhaseTask F}
    (hstep : s.wake i u = some s') : s'.worker.status = .closed := by
  have henter : s.enterPhase i u.deadlineUs = s.leave i := by
    unfold System.enterPhase
    rw [if_neg (by simp [h])]
  have hfinish : ∀ a b, s.finishPhase i a b = s.leave i := by
    intro a b
    unfold System.finishPhase
    rw [if_neg (by simp [h])]
  have hleave : (s.leave i).worker.status = .closed := (status_leave s i).trans h
  unfold System.wake at hstep
  simp only [henter, hfinish] at hstep
  split at hstep
  · split_ifs at hstep <;> obtain rfl := Option.some.inj hstep
    · exact h
    · exact h
    · exact hleave
  · split_ifs at hstep <;> exact Option.some.inj hstep ▸ hleave
  · split_ifs at hstep <;> exact Option.some.inj hstep ▸ hleave
  · cases hstep

theorem Twin.inside {current : Option (Call F)} (h : Twin current s t) {l : Label F} (hl : l.IsInner)
    (hstep : s.step l = some s') : (∃ t', t.step l = some t' ∧ Twin current s' t') ∧
      (s.worker.status = .closed → s'.worker.status = .closed) := by
  have hkeep : s'.worker.Sound → s'.waiting = s.waiting → (∀ j, s.Cancelled j → s'.Cancelled j) →
      Twin current s' { s' with waiting := t.waiting } := by
    intro hsound hw hcancelled
    refine ⟨rfl, fun hn => ⟨hw.trans (h.idle hn).1, (h.idle hn).2⟩, fun c hc => ?_, hsound⟩
    obtain ⟨u, w, hu, ht, hcu, hcw, htask, hc⟩ := h.busy c hc
    exact ⟨u, w, hw.trans hu, ht, hcu, hcw, htask, hcancelled _ hc⟩
  cases l with
  | wake i =>
    simp only [System.step, System.react, Option.map_map, Option.map_eq_some_iff,
      Option.bind_eq_some_iff, Function.comp_apply] at hstep ⊢
    obtain ⟨m, ⟨u, hu, hwake⟩, rfl⟩ := hstep
    refine ⟨⟨_, ⟨{ m with waiting := t.waiting }, ⟨u, ?_, ?_⟩, rfl⟩,
      hkeep (System.wake_sound h.sound hwake) ?_ fun j hj => hj.wake hwake⟩,
      fun hc => System.wake_closed hc hwake⟩
    · rw [h.rest]
      exact hu
    · rw [h.rest, System.wake_waiting, hwake]
      rfl
    · have hsame : s.wake i u = (s.wake i u).map fun m => { m with waiting := s.waiting } :=
        System.wake_waiting s.waiting i u
      rw [hwake] at hsame
      have hkept : m = { m with waiting := s.waiting } := Option.some.inj hsame
      rw [hkept]
  | tick nowUs =>
    simp only [System.step, System.react] at hstep ⊢
    rw [h.rest]
    split_ifs at hstep ⊢ with hnow
    · obtain rfl := Option.some.inj hstep
      exact ⟨⟨_, rfl, hkeep (h.sound.congr rfl) rfl fun _ hj => hj⟩, id⟩
    · cases hstep
  | _ => exact hl.elim

omit [PlainCbor F] in
/-- `next_event` takes the same event from both. -/
theorem Twin.nextEvent {current : Option (Call F)} (h : Twin current s t) {event : Dict F}
    (hstep : s.react .nextEvent = some (some (.ok (.dict event)), s')) :
    (Val.dict event).wellFormed = true ∧
      ∃ t', t.react .nextEvent = some (some (.ok (.dict event)), t') ∧ Twin current s' t' := by
  rw [h.rest]
  simp only [System.react] at hstep ⊢
  split_ifs at hstep ⊢ with hclosed
  · cases hstep
  · split at hstep
    · cases hstep
    · rename_i e events he
      simp only [Option.some.injEq, Prod.mk.injEq, Except.ok.injEq, Val.dict.injEq] at hstep
      obtain ⟨rfl, rfl⟩ := hstep
      refine ⟨h.sound e (he ▸ List.mem_cons_self), _, rfl, rfl, h.idle, h.busy, fun e' hm => ?_⟩
      exact h.sound e' (he ▸ List.mem_cons_of_mem e hm)

end Twins

end RemoteRobot.Worker
