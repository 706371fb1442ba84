import RemoteRobot.Orchestrator.Skew

/-!
# The phase barrier

`start_phase` for phase `k` goes out only when every worker of phase `k` has prepared and every
worker of phase `k - 1` has reported its completion, and all workers of a phase get one deadline.
The invariant `BarrierOk` says for each `await` which phases are over and what the current one has
done.
-/

namespace RemoteRobot

open Py Except

variable {F : Type}

/-! ## What a phase has done -/

/-- The worker takes part in phase `k`. -/
def Run.PhaseWorker (r : Run F) (k : ℕ) (w : Str) : Prop :=
  ∃ phase ids, r.phases[k]? = some phase ∧ phaseWorkerIds phase = .ok ids ∧ w ∈ ids

/-- The ID under which phase `k` is executed. -/
def Run.ExecutionId (r : Run F) (k : ℕ) (id : Str) : Prop :=
  ∃ phase sha, r.phases[k]? = some phase ∧ phase.get "sha256" = .ok (.str sha) ∧
    id = phaseExecutionId r.runId k sha

/-- The event reports the completion of phase `k` of the run. -/
def Run.Completes (r : Run F) (k : ℕ) (event : Val F) : Prop :=
  ∃ d id, event = .dict d ∧ field "type" d = .str (py "phase_completed") ∧
    field "run_id" d = .str r.runId ∧ r.ExecutionId k id ∧ field "phase_execution_id" d = .str id

variable (r : Run F) (k : ℕ) (history : List (Obs F))

def Run.PreparedBy : Prop := ∀ w, r.PhaseWorker k w →
  ∃ plan v, .finished w (.preparePhase k plan) (.returned v) ∈ history

def Run.StartedBy : Prop := ∃ startAtUs, ∀ w, r.PhaseWorker k w →
  .sent w (.startPhase k startAtUs) ∈ history ∧
    ∃ v, .finished w (.startPhase k startAtUs) (.returned v) ∈ history

def Run.CompletedBy : Prop := ∀ w, r.PhaseWorker k w →
  ∃ event, .delivered w event ∈ history ∧ r.Completes k event

/-- The phase is over. -/
structure Run.PhaseDone : Prop where
  prepared : r.PreparedBy k history
  started : r.StartedBy k history
  completed : r.CompletedBy k history

/-- Every phase before `k` is over. -/
def Run.DoneBelow : Prop := ∀ j < k, r.PhaseDone j history

variable {r k history} {history' : List (Obs F)}

theorem Run.PreparedBy.mono (h : r.PreparedBy k history) (hsub : history ⊆ history') :
    r.PreparedBy k history' := by
  intro w hw
  obtain ⟨plan, v, hfin⟩ := h w hw
  exact ⟨plan, v, hsub hfin⟩

theorem Run.StartedBy.mono (h : r.StartedBy k history) (hsub : history ⊆ history') :
    r.StartedBy k history' := by
  obtain ⟨startAtUs, h⟩ := h
  refine ⟨startAtUs, fun w hw => ?_⟩
  obtain ⟨hsent, v, hfin⟩ := h w hw
  exact ⟨hsub hsent, v, hsub hfin⟩

theorem Run.CompletedBy.mono (h : r.CompletedBy k history) (hsub : history ⊆ history') :
    r.CompletedBy k history' := by
  intro w hw
  obtain ⟨event, hmem, hevent⟩ := h w hw
  exact ⟨event, hsub hmem, hevent⟩

theorem Run.PhaseDone.mono (h : r.PhaseDone k history) (hsub : history ⊆ history') :
    r.PhaseDone k history' :=
  ⟨h.prepared.mono hsub, h.started.mono hsub, h.completed.mono hsub⟩

theorem Run.DoneBelow.mono (h : r.DoneBelow k history) (hsub : history ⊆ history') :
    r.DoneBelow k history' := fun j hj => (h j hj).mono hsub

theorem Run.DoneBelow.succ (h : r.DoneBelow k history) (hk : r.PhaseDone k history) :
    r.DoneBelow (k + 1) history := by
  intro j hj
  rcases Nat.lt_succ_iff_lt_or_eq.1 hj with hj | rfl
  · exact h j hj
  · exact hk

/-! ## The order of the history -/

variable (r history)

/-- A start is preceded by the preparation of its phase and the completion of the one before. -/
def Run.Guarded : Prop := ∀ pre post w k startAtUs,
  history = pre ++ .sent w (.startPhase k startAtUs) :: post →
    r.PreparedBy k pre ∧ ∀ j, k = j + 1 → r.CompletedBy j pre

/-- The starts of a phase carry one deadline. -/
def OneDeadline : Prop := ∀ w w' k a a', .sent w (.startPhase k a) ∈ history →
  .sent w' (.startPhase k a') ∈ history → a = a'

/-- Only phases before `k` were started. -/
def StartsBelow (k : ℕ) : Prop := ∀ w j a, .sent w (.startPhase j a) ∈ history → j < k

/-- Phase `k` was started with this deadline, if at all, and no later phase was. -/
def StartsAt (k startAtUs : ℕ) : Prop := ∀ w j a, .sent w (.startPhase j a) ∈ history →
  j < k ∨ j = k ∧ a = startAtUs

/-- The observation is not the start of a phase. -/
def Obs.NotStart (o : Obs F) : Prop := ∀ w k a, o ≠ .sent w (.startPhase k a)

variable {r history} {o : Obs F}

theorem subset_append_singleton : history ⊆ history ++ [o] := List.subset_append_left _ _

theorem append_singleton_eq {pre post : List (Obs F)} {x : Obs F}
    (h : history ++ [o] = pre ++ x :: post) :
    (x = o ∧ pre = history) ∨ ∃ post', history = pre ++ x :: post' := by
  rcases List.eq_nil_or_concat post with rfl | ⟨post', y, rfl⟩
  · obtain ⟨rfl, heq⟩ := List.append_inj' h rfl
    exact .inl ⟨(List.singleton_inj.1 heq).symm, rfl⟩
  · rw [List.concat_eq_append, ← List.cons_append, ← List.append_assoc] at h
    exact .inr ⟨post', (List.append_inj' h rfl).1⟩

theorem Run.Guarded.append (h : r.Guarded history) (ho : o.NotStart) : r.Guarded (history ++ [o]) := by
  intro pre post w k a heq
  rcases append_singleton_eq heq with ⟨rfl, -⟩ | ⟨post', heq⟩
  · exact absurd rfl (ho w k a)
  · exact h pre post' w k a heq

theorem Run.Guarded.append_start (h : r.Guarded history) {k : ℕ} (hprep : r.PreparedBy k history)
    (hbelow : r.DoneBelow k history) (w : Str) (a : ℕ) :
    r.Guarded (history ++ [Obs.sent w (.startPhase k a)]) := by
  intro pre post w' k' a' heq
  rcases append_singleton_eq heq with ⟨hx, rfl⟩ | ⟨post', heq⟩
  · cases hx
    refine ⟨hprep, fun j hj => (hbelow j ?_).completed⟩
    omega
  · exact h pre post' w' k' a' heq

theorem mem_append_notStart (ho : o.NotStart) {w : Str} {k a : ℕ}
    (h : .sent w (.startPhase k a) ∈ history ++ [o]) : .sent w (.startPhase k a) ∈ history := by
  rcases List.mem_append.1 h with h | h
  · exact h
  · exact absurd (List.mem_singleton.1 h).symm (ho w k a)

theorem OneDeadline.append (h : OneDeadline history) (ho : o.NotStart) :
    OneDeadline (history ++ [o]) := fun w w' k a a' hs hs' =>
  h w w' k a a' (mem_append_notStart ho hs) (mem_append_notStart ho hs')

theorem StartsBelow.append {k : ℕ} (h : StartsBelow history k) (ho : o.NotStart) :
    StartsBelow (history ++ [o]) k := fun w j a hs => h w j a (mem_append_notStart ho hs)

theorem StartsAt.append {k startAtUs : ℕ} (h : StartsAt history k startAtUs) (ho : o.NotStart) :
    StartsAt (history ++ [o]) k startAtUs := fun w j a hs => h w j a (mem_append_notStart ho hs)

theorem StartsAt.append_start {k startAtUs : ℕ} (h : StartsAt history k startAtUs) (w : Str) :
    StartsAt (history ++ [Obs.sent w (.startPhase k startAtUs)]) k startAtUs := by
  intro w' j a hs
  rcases List.mem_append.1 hs with hs | hs
  · exact h w' j a hs
  · cases List.mem_singleton.1 hs
    exact .inr ⟨rfl, rfl⟩

theorem OneDeadline.append_start {k startAtUs : ℕ} (h : OneDeadline history)
    (hat : StartsAt history k startAtUs) (w : Str) :
    OneDeadline (history ++ [Obs.sent w (.startPhase k startAtUs)]) := by
  have hat' := hat.append_start w
  intro w₁ w₂ j a₁ a₂ h₁ h₂
  rcases List.mem_append.1 h₁ with hs₁ | hs₁ <;> rcases List.mem_append.1 h₂ with hs₂ | hs₂
  · exact h w₁ w₂ j a₁ a₂ hs₁ hs₂
  · cases List.mem_singleton.1 hs₂
    rcases hat' _ _ _ h₁ with hlt | ⟨-, rfl⟩
    · omega
    · rfl
  · cases List.mem_singleton.1 hs₁
    rcases hat' _ _ _ h₂ with hlt | ⟨-, rfl⟩
    · omega
    · rfl
  · cases List.mem_singleton.1 hs₁
    cases List.mem_singleton.1 hs₂
    rfl

/-! ## The invariant -/

/-- A call that has begun is in the history, and its value is when it returned. -/
def Call.Logged (history : List (Obs F)) (c : Call F) : Prop :=
  match c.status with
  | .running => .sent c.worker c.command ∈ history
  | .finished (.returned v) => .sent c.worker c.command ∈ history ∧
    .finished c.worker c.command (.returned v) ∈ history
  | _ => True

theorem Call.Logged.mono {c : Call F} (h : c.Logged history) (hsub : history ⊆ history') :
    c.Logged history' := by
  unfold Call.Logged at *
  split at h
  · exact hsub h
  · exact ⟨hsub h.1, hsub h.2⟩
  · trivial

/-- The fan-out has a call for each worker of the phase, and its progress is in the history. -/
structure Run.CallsOf (r : Run F) (k : ℕ) (history : List (Obs F)) (calls : List (Call F)) : Prop where
  covers : ∀ w, r.PhaseWorker k w → w ∈ calls.map Call.worker
  logged : ∀ c ∈ calls, c.Logged history

/-- The run is in phase `k`. -/
structure Task.InPhase (t : Task F) (k : ℕ) : Prop where
  below : t.DoneBelow k t.history
  id : ∃ id, t.currentPhaseExecutionId = some id ∧ t.ExecutionId k id

/-- What holds at the `await` the run is suspended in. -/
def Task.AtBarrier (t : Task F) : Prop :=
  match t.pc with
  | .fanOut .disable _ _ => StartsBelow t.history 0
  | .fanOut (.prepare k) calls _ =>
    t.InPhase k ∧ StartsBelow t.history k ∧ t.CallsOf k t.history calls
  | .fanOut (.start k startAtUs) calls _ =>
    t.InPhase k ∧ t.PreparedBy k t.history ∧ StartsAt t.history k startAtUs ∧
      t.CallsOf k t.history calls
  | .waiting k startAtUs stage waits =>
    t.InPhase k ∧ t.PreparedBy k t.history ∧ StartsAt t.history k startAtUs ∧
      t.StartedBy k t.history ∧ (∀ w, t.PhaseWorker k w → w ∈ waits.map Wait.worker) ∧
      (stage = .completed → ∀ x ∈ waits, ∀ event, x.status = .got event →
        .delivered x.worker event ∈ t.history ∧ t.Completes k event)
  | .fanOut (.stop none) _ _ | .done .completed => t.DoneBelow t.phases.length t.history
  | _ => True

structure Task.BarrierOk (t : Task F) : Prop where
  guarded : t.Guarded t.history
  deadline : OneDeadline t.history
  current : t.AtBarrier

/-! ### Progress of a fan-out -/

theorem Run.CallsOf.mono {r : Run F} {k : ℕ} {calls : List (Call F)}
    (h : r.CallsOf k history calls) (hsub : history ⊆ history') : r.CallsOf k history' calls :=
  ⟨h.covers, fun c hc => (h.logged c hc).mono hsub⟩

/-- One call moves on and its progress goes to the history. -/
theorem Run.CallsOf.setStatus {r : Run F} {k : ℕ} {calls : List (Call F)}
    (h : r.CallsOf k history calls) (hnd : (calls.map Call.worker).Nodup) {c : Call F} (hc : c ∈ calls)
    {status : CallStatus F} (hlog : Call.Logged (history ++ [o]) { c with status := status }) :
    r.CallsOf k (history ++ [o]) (RemoteRobot.setStatus c.worker status calls) := by
  refine ⟨?_, fun c' hc' => ?_⟩
  · rw [workers_setStatus]
    exact h.covers
  · obtain ⟨c₀, hc₀, hworker, hcommand, ⟨-, rfl⟩ | ⟨hw, hstatus⟩⟩ := mem_setStatus hc'
    · exact (h.logged _ hc₀).mono subset_append_singleton
    · obtain rfl := List.inj_on_of_nodup_map hnd hc₀ hc hw
      obtain ⟨w', command', status'⟩ := c'
      cases hworker
      cases hcommand
      cases hstatus
      exact hlog

theorem Run.CallsOf.cancel {r : Run F} {k : ℕ} {calls : List (Call F)}
    (h : r.CallsOf k history calls) : r.CallsOf k history (calls.map Call.cancel) := by
  refine ⟨?_, fun c hc => ?_⟩
  · rw [workers_cancel]
    exact h.covers
  · obtain ⟨⟨w, command, status⟩, hc₀, rfl⟩ := List.mem_map.1 hc
    cases status with
    | created => trivial
    | _ => exact h.logged _ hc₀

/-- When every call returned, each worker of the phase did what it was sent. -/
theorem Run.CallsOf.returned {r : Run F} {k : ℕ} {calls : List (Call F)}
    (h : r.CallsOf k history calls) (hret : Task.AllReturned calls) {w : Str}
    (hw : r.PhaseWorker k w) : ∃ c ∈ calls, c.worker = w ∧ .sent w c.command ∈ history ∧
      ∃ v, .finished w c.command (.returned v) ∈ history := by
  obtain ⟨c, hc, rfl⟩ := List.mem_map.1 (h.covers w hw)
  obtain ⟨v, hv⟩ := hret c hc
  have hlog := h.logged c hc
  unfold Call.Logged at hlog
  rw [hv] at hlog
  exact ⟨c, hc, rfl, hlog.1, v, hlog.2⟩

/-! ### Events -/

section Events

variable [PyFloat F]

/-- An event that ends the wait for the completion reports the completion of the phase. -/
theorem Task.InPhase.classify {t : Task F} {k : ℕ} (h : t.InPhase k) {event event' : Val F}
    (hc : t.classify .completed event = .got event') : event' = event ∧ t.Completes k event := by
  obtain ⟨id, hid, hexec⟩ := h.id
  unfold Task.classify at hc
  cases event with
  | dict d =>
    simp only at hc
    split_ifs at hc with hmatch htype hfault hstarted
    · cases hc
      obtain ⟨hrun, hphase⟩ := Bool.and_eq_true_iff.1 hmatch
      rw [hid] at hphase
      exact ⟨rfl, d, id, rfl, eq_str_of_eq htype, eq_str_of_eq hrun, hexec, eq_str_of_eq hphase⟩
  | _ => cases hc

end Events

/-! ### Resuming -/

/-- Before phase `k` begins, the phases below it are over and no later one has started. -/
theorem Task.BarrierOk.before {t : Task F} (h : t.BarrierOk) {k : ℕ} (hb : t.Before k) :
    t.DoneBelow k t.history ∧ StartsBelow t.history k := by
  have hat := h.current
  unfold Task.AtBarrier at hat
  cases hb with
  | first hpc =>
    rw [hpc] at hat
    exact ⟨fun j hj => absurd hj (Nat.not_lt_zero j), hat⟩
  | @next k startAtUs waits hpc hgot =>
    rw [hpc] at hat
    obtain ⟨hphase, hprep, hstarts, hstarted, hcovers, hevents⟩ := hat
    have hcompleted : t.CompletedBy k t.history := by
      intro w hw
      obtain ⟨x, hx, rfl⟩ := List.mem_map.1 (hcovers w hw)
      obtain ⟨event, hevent⟩ := hgot x hx
      exact ⟨event, hevents rfl x hx event hevent⟩
    refine ⟨hphase.below.succ ⟨hprep, hstarted, hcompleted⟩, fun w j a hs => ?_⟩
    rcases hstarts w j a hs with hlt | ⟨rfl, -⟩
    · omega
    · omega

section Moves

variable [PyText F]

theorem Task.BarrierOk.resumed {t t' : Task F} (h : t.BarrierOk) (hcalls : t.CallsOk)
    (hr : Task.Resumed t t') : t'.BarrierOk := by
  have hat := h.current
  unfold Task.AtBarrier at hat
  cases hr with
  | fail => exact ⟨h.guarded, h.deadline, trivial⟩
  | @complete k hbefore hend =>
    refine ⟨h.guarded, h.deadline, fun j hj => (h.before hbefore).1 j ?_⟩
    exact Nat.lt_of_lt_of_le hj (List.getElem?_eq_none_iff.1 hend)
  | @prepare k phase plans q name hbefore hphase hplans hq hpart =>
    obtain ⟨hbelow, hstarts⟩ := h.before hbefore
    obtain ⟨sha, hsha, hid⟩ := plans_executionId hplans
    refine ⟨h.guarded, h.deadline, ⟨hbelow, _, rfl, phase, sha, hphase, hsha, hid q hq⟩, hstarts, ?_, ?_⟩
    · rintro w ⟨phase', ids, hphase', hids, hw⟩
      rw [show t.phases[k]? = some phase from hphase] at hphase'
      cases hphase'
      obtain ⟨p, hp, rfl⟩ := List.mem_map.1 ((mem_plans_iff hplans hids).2 hw)
      exact List.mem_map.2 ⟨_, mem_prepareCalls.2 ⟨p, hp, rfl⟩, rfl⟩
    · intro c hc
      obtain ⟨p, -, rfl⟩ := mem_prepareCalls.1 hc
      trivial
  | @start k startAtUs calls hpc hret =>
    rw [hpc] at hat
    obtain ⟨hphase, hstarts, hof⟩ := hat
    refine ⟨h.guarded, h.deadline, ⟨hphase.below, hphase.id⟩, ?_, fun w j a hs => .inl (hstarts w j a hs), ?_, ?_⟩
    · intro w hw
      obtain ⟨c, hc, -, -, v, hfin⟩ := hof.returned hret hw
      have hissues := ((hcalls.calls _ _ _ hpc).2 c hc).2
      cases hcommand : c.command with
      | preparePhase k' plan =>
        rw [hcommand] at hissues hfin
        cases show k' = k from hissues
        exact ⟨plan, v, hfin⟩
      | _ => rw [hcommand] at hissues; cases hissues
    · intro w hw
      rw [List.map_map]
      exact hof.covers w hw
    · intro c hc
      obtain ⟨c₀, -, rfl⟩ := List.mem_map.1 hc
      trivial
  | @awaitStarted k startAtUs calls hpc hret =>
    rw [hpc] at hat
    obtain ⟨hphase, hprep, hstarts, hof⟩ := hat
    refine ⟨h.guarded, h.deadline, ⟨hphase.below, hphase.id⟩, hprep, hstarts, ⟨startAtUs, fun w hw => ?_⟩, ?_, nofun⟩
    · obtain ⟨c, hc, -, hsent, v, hfin⟩ := hof.returned hret hw
      have hissues := ((hcalls.calls _ _ _ hpc).2 c hc).2
      cases hcommand : c.command with
      | startPhase k' a' =>
        rw [hcommand] at hissues hfin hsent
        obtain ⟨rfl, rfl⟩ := show k' = k ∧ a' = startAtUs from hissues
        exact ⟨hsent, v, hfin⟩
      | _ => rw [hcommand] at hissues; cases hissues
    · intro w hw
      rw [List.map_map]
      exact List.mem_map.2 ⟨w, hof.covers w hw, rfl⟩
  | @awaitCompleted k startAtUs waits hpc hgot =>
    rw [hpc] at hat
    obtain ⟨hphase, hprep, hstarts, hstarted, hcovers, -⟩ := hat
    refine ⟨h.guarded, h.deadline, ⟨hphase.below, hphase.id⟩, hprep, hstarts, hstarted, fun w hw => ?_, ?_⟩
    · rw [List.map_map]
      exact List.mem_map.2 ⟨w, hcovers w hw, rfl⟩
    · rintro - x hx event hevent
      obtain ⟨w, -, rfl⟩ := List.mem_map.1 hx
      cases hevent
  | drain => exact ⟨h.guarded, h.deadline, trivial⟩
  | completed hpc =>
    rw [hpc] at hat
    exact ⟨h.guarded, h.deadline, hat⟩
  | failed => exact ⟨h.guarded, h.deadline, trivial⟩

end Moves

/-! ### The other moves -/

/-- Everything but the calls stays where it is when a call of the fan-out moves on. -/
theorem Task.BarrierOk.setStatus [PyText F] {t : Task F} (h : t.BarrierOk) (hcalls : t.CallsOk)
    {fan : Fan} {calls : List (Call F)} {cancelled : Bool} (hpc : t.pc = .fanOut fan calls cancelled)
    {c : Call F} (hc : c ∈ calls) {status : CallStatus F} {o : Obs F}
    (ho : ∀ w command, o = .sent w command → command = c.command)
    (hlog : c.Logged t.history → Call.Logged (t.history ++ [o]) { c with status := status }) :
    Task.BarrierOk { t with
      pc := .fanOut fan (RemoteRobot.setStatus c.worker status calls) cancelled
      history := t.history ++ [o] } := by
  have hat := h.current
  unfold Task.AtBarrier at hat
  rw [hpc] at hat
  obtain ⟨hnd, hissues⟩ := hcalls.calls _ _ _ hpc
  have hissue := (hissues c hc).2
  have hsub : t.history ⊆ t.history ++ [o] := subset_append_singleton
  have hno (hcommand : ∀ k a, c.command ≠ .startPhase k a) : o.NotStart := by
    intro w k a heq
    exact hcommand k a (ho w _ heq).symm
  cases fan with
  | disable =>
    have hns : o.NotStart := hno fun k a heq => by rw [heq] at hissue; exact hissue
    exact ⟨h.guarded.append hns, h.deadline.append hns, hat.append hns⟩
  | prepare k =>
    have hns : o.NotStart := hno fun k a heq => by rw [heq] at hissue; exact hissue
    obtain ⟨hphase, hstarts, hof⟩ := hat
    exact ⟨h.guarded.append hns, h.deadline.append hns, ⟨hphase.below.mono hsub, hphase.id⟩,
      hstarts.append hns, hof.setStatus hnd hc (hlog (hof.logged c hc))⟩
  | start k startAtUs =>
    obtain ⟨hphase, hprep, hstarts, hof⟩ := hat
    have hof' := hof.setStatus hnd hc (hlog (hof.logged c hc))
    have hphase' : t.DoneBelow k (t.history ++ [o]) := hphase.below.mono hsub
    by_cases hns : o.NotStart
    · exact ⟨h.guarded.append hns, h.deadline.append hns, ⟨hphase', hphase.id⟩, hprep.mono hsub,
        hstarts.append hns, hof'⟩
    · -- a start goes out: it is one of phase `k` with the deadline of the fan-out
      obtain ⟨w, k', a', rfl⟩ : ∃ w k' a', o = .sent w (.startPhase k' a') := by
        by_contra hex
        exact hns fun w k' a' heq => hex ⟨w, k', a', heq⟩
      rw [← ho w _ rfl] at hissue
      obtain ⟨rfl, rfl⟩ := hissue
      exact ⟨h.guarded.append_start hprep hphase.below w a', h.deadline.append_start hstarts w,
        ⟨hphase', hphase.id⟩, hprep.mono hsub, hstarts.append_start w, hof'⟩
  | stop failure =>
    have hns : o.NotStart := hno fun k a heq => by rw [heq] at hissue; exact hissue
    refine ⟨h.guarded.append hns, h.deadline.append hns, ?_⟩
    cases failure with
    | none => exact Run.DoneBelow.mono hat hsub
    | some failure => trivial

theorem Task.BarrierOk.cancelCalls {t : Task F} (h : t.BarrierOk) {fan : Fan}
    {calls : List (Call F)} {cancelled : Bool} (hpc : t.pc = .fanOut fan calls cancelled) :
    Task.BarrierOk { t with pc := .fanOut fan (calls.map Call.cancel) true } := by
  have hat := h.current
  unfold Task.AtBarrier at hat
  rw [hpc] at hat
  refine ⟨h.guarded, h.deadline, ?_⟩
  cases fan with
  | disable => exact hat
  | prepare k => exact ⟨⟨hat.1.below, hat.1.id⟩, hat.2.1, hat.2.2.cancel⟩
  | start k startAtUs => exact ⟨⟨hat.1.below, hat.1.id⟩, hat.2.1, hat.2.2.1, hat.2.2.2.cancel⟩
  | stop failure => cases failure <;> exact hat

/-- An observation other than a start changes nothing. -/
theorem Task.BarrierOk.append {t : Task F} (h : t.BarrierOk) {o : Obs F} (ho : o.NotStart) :
    Task.BarrierOk { t with history := t.history ++ [o] } := by
  refine ⟨h.guarded.append ho, h.deadline.append ho, ?_⟩
  have hat := h.current
  have hsub : t.history ⊆ t.history ++ [o] := subset_append_singleton
  unfold Task.AtBarrier at hat ⊢
  cases hpc : t.pc with
  | fanOut fan calls cancelled =>
    rw [hpc] at hat
    cases fan with
    | disable => exact hat.append ho
    | prepare k =>
      exact ⟨⟨hat.1.below.mono hsub, hat.1.id⟩, hat.2.1.append ho, hat.2.2.mono hsub⟩
    | start k startAtUs =>
      exact ⟨⟨hat.1.below.mono hsub, hat.1.id⟩, hat.2.1.mono hsub, hat.2.2.1.append ho,
        hat.2.2.2.mono hsub⟩
    | stop failure =>
      cases failure with
      | none => exact Run.DoneBelow.mono hat hsub
      | some failure => trivial
  | waiting k startAtUs stage waits =>
    rw [hpc] at hat
    obtain ⟨hphase, hprep, hstarts, hstarted, hcovers, hevents⟩ := hat
    refine ⟨⟨hphase.below.mono hsub, hphase.id⟩, hprep.mono hsub, hstarts.append ho,
      hstarted.mono hsub, hcovers, fun hstage x hx event hgot => ?_⟩
    obtain ⟨hmem, hevent⟩ := hevents hstage x hx event hgot
    exact ⟨hsub hmem, hevent⟩
  | draining => trivial
  | done outcome =>
    rw [hpc] at hat
    cases outcome with
    | completed => exact Run.DoneBelow.mono hat hsub
    | failed => trivial

/-- A wait moves on; an event it ends with is in the history. -/
theorem Task.BarrierOk.setWaitStatus {t : Task F} (h : t.BarrierOk) {k startAtUs : ℕ}
    {stage : WaitStage} {waits : List (Wait F)} (hpc : t.pc = .waiting k startAtUs stage waits)
    {w : Str} {status : WaitStatus F}
    (hgot : stage = .completed → t.InPhase k → ∀ event, status = .got event →
      .delivered w event ∈ t.history ∧ t.Completes k event) :
    Task.BarrierOk { t with
      pc := .waiting k startAtUs stage (RemoteRobot.setWaitStatus w status waits) } := by
  have hat := h.current
  unfold Task.AtBarrier at hat
  rw [hpc] at hat
  obtain ⟨hphase, hprep, hstarts, hstarted, hcovers, hevents⟩ := hat
  refine ⟨h.guarded, h.deadline, ⟨hphase.below, hphase.id⟩, hprep, hstarts, hstarted, ?_, ?_⟩
  · rw [workers_setWaitStatus]
    exact hcovers
  · intro hstage x hx event hevent
    obtain ⟨x₀, hx₀, rfl⟩ := List.mem_map.1 hx
    by_cases hw : x₀.worker = w
    · rw [if_pos hw] at hevent ⊢
      rw [hw]
      exact hgot hstage hphase event hevent
    · rw [if_neg hw] at hevent ⊢
      exact hevents hstage x₀ hx₀ event hevent

section Moves

variable [PyFloat F] [PyText F]

theorem Task.BarrierOk.move {t t' : Task F} {label : Task.Label F} (h : t.BarrierOk)
    (hcalls : t.CallsOk) (hm : Task.Move t label t') : t'.BarrierOk := by
  cases hm with
  | resumed hr => exact h.resumed hcalls hr
  | @sent fan calls cancelled w command hpc hcall =>
    refine h.setStatus hcalls hpc hcall (o := .sent w command) ?_ ?_
    · rintro w' command' heq
      cases heq
      rfl
    · exact fun _ => List.mem_append_right _ (List.mem_singleton_self _)
  | @finished fan calls cancelled w command reply hpc hcall =>
    refine h.setStatus hcalls hpc hcall (o := .finished w command reply) nofun fun hlog => ?_
    cases reply with
    | returned v =>
      exact ⟨List.mem_append_left _ hlog, List.mem_append_right _ (List.mem_singleton_self _)⟩
    | raised errorType => trivial
  | cancelCalls hpc => exact h.cancelCalls hpc
  | @delivered k startAtUs stage waits w event hpc hwait =>
    have hs := h.append (o := .delivered w event) nofun
    refine hs.setWaitStatus hpc fun hstage hphase event' hgot => ?_
    rw [hstage] at hgot
    obtain ⟨rfl, hevent⟩ := hphase.classify hgot
    exact ⟨List.mem_append_right _ (List.mem_singleton_self _), hevent⟩
  | waitFailed hpc => exact h.setWaitStatus hpc nofun
  | cancelWaits | drained => exact ⟨h.guarded, h.deadline, trivial⟩

variable [Cbor F] [Sha256] {cfg : Setup F}

theorem Task.Opened.barrierOk {t : Task F} (h : t.Opened cfg) : t.BarrierOk := by
  refine ⟨?_, ?_, ?_⟩
  · rw [h.history]
    intro pre post w k a heq
    exact absurd heq.symm (by simp)
  · rw [h.history]
    nofun
  · unfold Task.AtBarrier
    rw [h.pc, h.history]
    nofun

/-! ## The barrier -/

/-- The workers of every phase are known when a run opens. -/
theorem Run.Checked.phaseWorkers {r : Run F} (h : r.Checked cfg) {k : ℕ} (hk : k < r.phases.length) :
    ∃ phase ids, r.phases[k]? = some phase ∧ phaseWorkerIds phase = .ok ids := by
  have hp := h.participants
  unfold participantWorkerIds at hp
  simp only [bind_eq_ok, h.phases, Except.ok.injEq, exists_eq_left'] at hp
  obtain ⟨idss, hidss, -⟩ := hp
  have hmem : r.phases[k] ∈ r.phases := List.getElem_mem hk
  obtain ⟨ids, -, hids⟩ := (mapM_eq_ok.1 hidss).exists_of_mem_left hmem
  exact ⟨_, ids, List.getElem?_eq_getElem hk, hids⟩

/-- Every start is preceded by the preparations of its phase and the completions of the one before,
the starts of a phase carry one deadline, and a run that completed went through all its phases. -/
theorem System.phase_barrier (cfg : Setup F) {s₀ s : System F} (h₀ : s₀.Initial)
    (h : Transition.Reachable (System.step cfg) s₀ s) {runId : Str} {t : Task F}
    (ht : s.tasks.get runId = some t) :
    t.Guarded t.history ∧ OneDeadline t.history ∧
      (t.pc = .done .completed → ∀ k < t.phases.length, t.PhaseDone k t.history ∧
        ∃ phase ids, t.phases[k]? = some phase ∧ phaseWorkerIds phase = .ok ids) := by
  have hinv : t.CallsOk ∧ t.BarrierOk :=
    System.tasks_invariant (P := fun t => t.CallsOk ∧ t.BarrierOk)
      (fun _ ho => ⟨ho.callsOk, ho.barrierOk⟩)
      (fun _ _ _ hP hm => ⟨hP.1.move hm, hP.2.move hP.1 hm⟩) h₀ h ht
  refine ⟨hinv.2.guarded, hinv.2.deadline, fun hpc k hk => ⟨?_, ?_⟩⟩
  · have hat := hinv.2.current
    unfold Task.AtBarrier at hat
    rw [hpc] at hat
    exact hat k hk
  · exact ((System.inv_of_reachable h₀ h).checked runId t ht).phaseWorkers hk

end Moves

/-! ### A run of two robots through two phases -/

section Demo

local instance barrierHash : Sha256 := lengthHash

/-- Both robots move twice. -/
def barrierTemplate : Val ℚ :=
  dictOf [("format", .str templateFormat), ("version", .int 2), ("root_id", .str (py "cell")),
    ("phases", .list (["forth", "again"].map fun phaseId => dictOf [("phase_id", .str (py phaseId)),
      ("sequences", .list [cellSequence "pair.left.arm", cellSequence "pair.right.arm"])]))]

def barrierProgram : CompiledProgram ℚ :=
  match compile cellRegistry barrierTemplate with
  | .ok program => program
  | .error _ => ⟨[], []⟩

def barrierExecutionId (k : ℕ) : Str := phaseExecutionId (py "run") k (List.replicate 12 48)

/-- Both robots report, and the run goes on. -/
def cellReports (report : Val ℚ) : List (System.Label ℚ) :=
  [.task (py "run") (.event (py "left") report), .task (py "run") (.event (py "right") report),
    .task (py "run") (.resume 0 none)]

/-- Both robots do phase `k`. -/
def barrierPhase (k : ℕ) : List (System.Label ℚ) :=
  cellExchange .none ++
    cellExchange (dictOf [("status", .str (py "scheduled")), ("run_id", .str (py "run")),
      ("phase_execution_id", .str (barrierExecutionId k))]) ++
    cellReports (startReport (py "run") (barrierExecutionId k) 100000) ++
    cellReports (dictOf [("type", .str (py "phase_completed")), ("run_id", .str (py "run")),
      ("phase_execution_id", .str (barrierExecutionId k))])

def barrierRun : List (System.Label ℚ) :=
  .call (py "run") (py "example_operator") barrierProgram 0 none ::
    cellExchange .none ++ barrierPhase 0 ++ barrierPhase 1 ++ cellExchange .none

/-- The workers that were told to start phase `k`. -/
def startedWorkers (k : ℕ) (history : List (Obs ℚ)) : List Str :=
  history.filterMap fun o => match o with
    | .sent w (.startPhase j _) => if j = k then some w else none
    | _ => none

def Task.isCompleted (t : Task ℚ) : Bool :=
  match t.pc with
  | .done .completed => true
  | _ => false

/-- The run went through two phases, and both robots started each of them. -/
def Task.TwoPhases (t : Task ℚ) : Prop :=
  t.phases.length = 2 ∧ ∀ k ∈ [0, 1], startedWorkers k t.history = [py "left", py "right"]

instance (t : Task ℚ) : Decidable t.TwoPhases := inferInstanceAs (Decidable (_ ∧ _))

theorem Task.completed_of_isCompleted {t : Task ℚ} (h : t.isCompleted = true) :
    t.pc = .done .completed := by
  unfold isCompleted at h
  split at h
  · assumption
  · cases h

set_option maxRecDepth 20000 in
theorem System.phase_barrier_demo : ∃ t : Task ℚ, t.pc = .done .completed ∧ t.TwoPhases ∧
    (∀ k < t.phases.length, t.PhaseDone k t.history) ∧ t.Guarded t.history ∧
    OneDeadline t.history := by
  have hrun : (Transition.run (System.step cellSetup) {} barrierRun).any (fun s =>
      (s.tasks.get (py "run")).any fun t => t.isCompleted && decide t.TwoPhases) = true := by
    decide +kernel
  obtain ⟨s, hs, hcheck⟩ := (Option.any_eq_true _ _).1 hrun
  obtain ⟨t, ht, hboth⟩ := (Option.any_eq_true _ _).1 hcheck
  obtain ⟨hdone, htwo⟩ := Bool.and_eq_true_iff.1 hboth
  have hpc := Task.completed_of_isCompleted hdone
  obtain ⟨hguarded, hdeadline, hphases⟩ := phase_barrier cellSetup initial_empty ⟨barrierRun, hs⟩ ht
  exact ⟨t, hpc, of_decide_eq_true htwo, fun k hk => (hphases hpc k hk).1, hguarded, hdeadline⟩

end Demo

end RemoteRobot
