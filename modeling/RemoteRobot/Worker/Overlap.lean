import RemoteRobot.Worker.Phases

/-!
# Phases under overlapping calls

In a run that starts a phase only while the worker holds no task (`Exclusive`), every phase puts at
most `phase_started` and then `phase_completed` in the queue, its duration apart, and nothing behind
a `stop` that returned (`phases_along`).  The invariant `PhaseInv` says which task can still run: the
one the worker holds.

`stop` gives the task up, waits for its end and then writes the status without looking at it again.
A phase started while it waits keeps running with the status of a stopped worker, and the phase that
is prepared and started next makes the first one believe that it runs (`overlap_counterexample`).
-/

namespace RemoteRobot.Worker

open Py Except Transition

variable {F : Type}

/-! ## The property -/

/-- The phase events of task `i`. -/
def eventsOf (log : List (PhaseEvent F)) (i : ℕ) : List (PhaseEvent F) :=
  log.filter fun e => e.task = i

/-- At most `phase_started` and `phase_completed`, in that order and the duration of the plan
apart. -/
def InOrder (plan : Option (Dict F)) (es : List (PhaseEvent F)) : Prop :=
  es = [] ∨ ∃ e, e.kind = .started ∧ (es = [e] ∨ ∃ e', e'.kind = .completed ∧
    e.atUs + planDuration plan ≤ e'.atUs ∧ es = [e, e'])

/-- What the claims about phases say of a state: the `i`th phase started is task `i`. -/
structure PhasesOk [PyFloat F] [PyText F] [Cbor F] (s : System F) : Prop where
  source : ∀ e ∈ s.log, ∃ t, s.tasks[e.task]? = some t ∧ Announces t.plan e
  order : ∀ i t, s.tasks[i]? = some t → InOrder t.plan (eventsOf s.log i)
  /-- behind a `stop` that returned there is no event of a phase started before -/
  stopped : ∀ k n, (k, n) ∈ s.stops → ∀ e ∈ s.log.drop k, n ≤ e.task

/-- A phase is started only while the worker holds no task. -/
def Exclusive (s : System F) : Label F → Prop
  | .call (.startPhase (.int n)) =>
    0 ≤ n → s.worker.status = .prepared → s.worker.phaseTask = none
  | _ => True

instance (s : System F) (l : Label F) : Decidable (Exclusive s l) := by
  unfold Exclusive
  split <;> infer_instance

/-! ## The invariant -/

/-- What is in the log of a task that stands at `stage`. -/
def Progress (plan : Option (Dict F)) (es : List (PhaseEvent F)) : Stage → Prop
  | .created | .sleeping _ => es = []
  | .working actualStartUs untilUs => untilUs = actualStartUs + planDuration plan ∧
      ∃ e, e.kind = .started ∧ e.atUs = actualStartUs ∧ es = [e]
  | .done => InOrder plan es

theorem Progress.inOrder {plan : Option (Dict F)} {es : List (PhaseEvent F)} {stage : Stage}
    (h : Progress plan es stage) : InOrder plan es := by
  cases stage with
  | created => exact .inl h
  | sleeping untilUs => exact .inl h
  | working actualStartUs untilUs =>
    obtain ⟨-, e, hk, -, he⟩ := h
    exact .inr ⟨e, hk, .inl he⟩
  | done => exact h

theorem Progress.eq_nil {plan : Option (Dict F)} {es : List (PhaseEvent F)} {stage : Stage}
    (h : Progress plan es stage) (hs : stage.IsWaiting) : es = [] := by
  cases stage with
  | created => exact h
  | sleeping untilUs => exact h
  | working actualStartUs untilUs => exact hs.elim
  | done => exact hs.elim

structure PhaseInv [PyFloat F] [PyText F] [Cbor F] (s : System F) : Prop where
  /-- the task the worker holds can run -/
  held : ∀ i, s.worker.phaseTask = some i →
    ∃ t, s.tasks[i]? = some t ∧ t.cancelled = false ∧ t.stage ≠ .done
  /-- and no other can -/
  live : ∀ i t, s.tasks[i]? = some t → t.cancelled = false → t.stage ≠ .done →
    s.worker.phaseTask = some i
  plan : ∀ i t, s.worker.phaseTask = some i → s.tasks[i]? = some t →
    s.worker.status.isActive = true → t.plan = s.worker.phasePlan
  progress : ∀ i t, s.tasks[i]? = some t → Progress t.plan (eventsOf s.log i) t.stage
  source : ∀ e ∈ s.log, ∃ t, s.tasks[e.task]? = some t ∧ Announces t.plan e
  bounds : ∀ k n, (k, n) ∈ s.stops → k ≤ s.log.length ∧ n ≤ s.tasks.length
  stopped : ∀ k n, (k, n) ∈ s.stops → ∀ e ∈ s.log.drop k, n ≤ e.task
  /-- a phase started before a `stop` that returned is not active -/
  idle : ∀ k n, (k, n) ∈ s.stops → ∀ i, s.worker.phaseTask = some i → i < n →
    s.worker.status.isActive = false

section Steps

variable [PyFloat F] [PyText F] [Cbor F] {s s' : System F} {i : ℕ} {t : PhaseTask F}
  {stage : Stage} {new : List (PhaseEvent F)}

theorem PhaseInv.phasesOk (h : PhaseInv s) : PhasesOk s :=
  ⟨h.source, fun i t ht => (h.progress i t ht).inOrder, h.stopped⟩

omit [PyFloat F] [PyText F] [Cbor F] in
theorem eventsOf_append_self {log : List (PhaseEvent F)} (h : ∀ e ∈ new, e.task = i) :
    eventsOf (log ++ new) i = eventsOf log i ++ new := by
  unfold eventsOf
  rw [List.filter_append, List.filter_eq_self.2 fun e he => decide_eq_true (h e he)]

omit [PyFloat F] [PyText F] [Cbor F] in
theorem eventsOf_append_of_ne {log : List (PhaseEvent F)} {j : ℕ} (h : ∀ e ∈ new, e.task = i)
    (hj : j ≠ i) : eventsOf (log ++ new) j = eventsOf log j := by
  unfold eventsOf
  have hnil : (new.filter fun e => e.task = j) = [] := by
    refine List.filter_eq_nil_iff.2 fun e he => ?_
    rw [h e he, decide_eq_true_iff]
    exact hj.symm
  rw [List.filter_append, hnil, List.append_nil]

omit [PyFloat F] [PyText F] [Cbor F] in
theorem getElem?_modify_eq_some {α : Type} {f : α → α} {xs : List α} {j : ℕ} {a : α} :
    (xs.modify i f)[j]? = some a ↔ ∃ b, xs[j]? = some b ∧ a = if i = j then f b else b := by
  rw [List.getElem?_modify, Option.map_eq_map, Option.map_eq_some_iff]
  exact exists_congr fun b => and_congr_right fun _ => eq_comm

/-- A quiet step keeps the invariant, with the stops of before. -/
theorem PhaseInv.quiet (h : PhaseInv s) (hq : Quiet s s') (hstops : s'.stops = s.stops) :
    PhaseInv s' := by
  refine ⟨?_, ?_, ?_, ?_, ?_, ?_, ?_, ?_⟩
  · rw [hq.held, hq.tasks]
    exact h.held
  · rw [hq.held, hq.tasks]
    exact h.live
  · intro i t hi ht ha
    rw [hq.held] at hi
    rw [hq.tasks] at ht
    obtain ⟨hs, hp⟩ := hq.active ha
    rw [hp]
    exact h.plan i t hi ht (hs ▸ ha)
  · rw [hq.log, hq.tasks]
    exact h.progress
  · rw [hq.log, hq.tasks]
    exact h.source
  · rw [hq.log, hq.tasks, hstops]
    exact h.bounds
  · rw [hq.log, hstops]
    exact h.stopped
  · intro k n hk i hi hlt
    rw [hstops] at hk
    rw [hq.held] at hi
    have hidle := h.idle k n hk i hi hlt
    by_contra ha
    rw [Bool.not_eq_false] at ha
    rw [← (hq.active ha).1, ha] at hidle
    cases hidle

/-- A `stop` that returns leaves no active phase behind. -/
theorem PhaseInv.stop (h : PhaseInv s) (hq : Quiet s s')
    (hidle : s'.worker.status.isActive = false)
    (hstops : s'.stops = s.stops ++ [(s.log.length, s.tasks.length)]) : PhaseInv s' := by
  have hold : PhaseInv { s' with stops := s.stops } :=
    h.quiet ⟨hq.tasks, hq.log, hq.nowUs, hq.held, hq.active⟩ rfl
  have hmem : ∀ k n, (k, n) ∈ s'.stops →
      (k, n) ∈ s.stops ∨ (k = s.log.length ∧ n = s.tasks.length) := by
    intro k n hk
    rw [hstops, List.mem_append, List.mem_singleton, Prod.mk.injEq] at hk
    exact hk
  refine ⟨hold.held, hold.live, hold.plan, hold.progress, hold.source, ?_, ?_, ?_⟩
  · intro k n hk
    obtain hk | ⟨rfl, rfl⟩ := hmem k n hk
    · exact hold.bounds k n hk
    · rw [hq.log, hq.tasks]
      exact ⟨le_refl _, le_refl _⟩
  · intro k n hk e he
    obtain hk | ⟨rfl, rfl⟩ := hmem k n hk
    · exact hold.stopped k n hk e he
    · rw [hq.log, List.drop_length] at he
      cases he
  · intro k n _ i _ _
    exact hidle

/-- The phase that starts is the only one that can run. -/
theorem PhaseInv.start (h : PhaseInv s) {deadlineUs : ℤ} (hnone : s.worker.phaseTask = none)
    (hplan : s'.worker.phasePlan = s.worker.phasePlan)
    (hheld : s'.worker.phaseTask = some s.tasks.length)
    (htasks : s'.tasks = s.tasks ++ [⟨deadlineUs, s.worker.phasePlan, .created, false⟩])
    (hlog : s'.log = s.log) (hstops : s'.stops = s.stops) : PhaseInv s' := by
  have hget : ∀ (i : ℕ) (t : PhaseTask F), s'.tasks[i]? = some t → s.tasks[i]? = some t ∨
      (i = s.tasks.length ∧ t = ⟨deadlineUs, s.worker.phasePlan, .created, false⟩) := by
    intro i t ht
    rw [htasks, List.getElem?_append] at ht
    split_ifs at ht with hlt
    · exact .inl ht
    · have hi : i - s.tasks.length = 0 := by
        by_contra hne
        rw [List.getElem?_eq_none (by rw [List.length_singleton]; omega)] at ht
        cases ht
      rw [hi] at ht
      exact .inr ⟨by omega, (Option.some.inj ht).symm⟩
  have hkeep : ∀ (i : ℕ) (t : PhaseTask F), s.tasks[i]? = some t → s'.tasks[i]? = some t := by
    intro i t ht
    rw [htasks, List.getElem?_append_left (List.getElem?_eq_some_iff.1 ht).1]
    exact ht
  have hlast : s'.tasks[s.tasks.length]? =
      some ⟨deadlineUs, s.worker.phasePlan, .created, false⟩ := by
    rw [htasks, List.getElem?_concat_length]
  refine ⟨?_, ?_, ?_, ?_, ?_, ?_, ?_, ?_⟩
  · intro i hi
    rw [hheld] at hi
    obtain rfl := Option.some.inj hi
    exact ⟨_, hlast, rfl, fun he => nomatch he⟩
  · intro i t ht hc hd
    obtain ht | ⟨rfl, -⟩ := hget i t ht
    · have hi := h.live i t ht hc hd
      rw [hnone] at hi
      cases hi
    · exact hheld
  · intro i t hi ht _
    rw [hheld] at hi
    obtain rfl := Option.some.inj hi
    rw [hlast] at ht
    rw [← Option.some.inj ht, hplan]
  · intro i t ht
    rw [hlog]
    obtain ht | ⟨rfl, rfl⟩ := hget i t ht
    · exact h.progress i t ht
    · -- no event is of a task that was not there
      refine List.filter_eq_nil_iff.2 fun e he hi => ?_
      obtain ⟨t, ht, -⟩ := h.source e he
      have hlt := (List.getElem?_eq_some_iff.1 ht).1
      rw [of_decide_eq_true hi] at hlt
      omega
  · intro e he
    rw [hlog] at he
    obtain ⟨t, ht, ha⟩ := h.source e he
    exact ⟨t, hkeep _ _ ht, ha⟩
  · intro k n hk
    rw [hstops] at hk
    obtain ⟨hl, hn⟩ := h.bounds k n hk
    rw [hlog, htasks, List.length_append]
    exact ⟨hl, by omega⟩
  · rw [hlog, hstops]
    exact h.stopped
  · intro k n hk i hi hlt
    rw [hstops] at hk
    rw [hheld] at hi
    obtain rfl := Option.some.inj hi
    have := (h.bounds k n hk).2
    omega

theorem PhaseInv.cancel (h : PhaseInv s) (hheld : s.worker.phaseTask = some i)
    (hheld' : s'.worker.phaseTask = none)
    (htasks : s'.tasks = s.tasks.modify i fun t => { t with cancelled := true })
    (hlog : s'.log = s.log) (hstops : s'.stops = s.stops) : PhaseInv s' := by
  refine ⟨?_, ?_, ?_, ?_, ?_, ?_, ?_, ?_⟩
  · intro j hj
    rw [hheld'] at hj
    cases hj
  · intro j t ht hc hd
    rw [htasks, getElem?_modify_eq_some] at ht
    obtain ⟨u, hu, rfl⟩ := ht
    split_ifs at hc hd with hij
    have hj := h.live j u hu hc hd
    rw [hheld] at hj
    exact absurd (Option.some.inj hj) hij
  · intro j t hj
    rw [hheld'] at hj
    cases hj
  · intro j t ht
    rw [htasks, getElem?_modify_eq_some] at ht
    obtain ⟨u, hu, rfl⟩ := ht
    rw [hlog]
    split_ifs <;> exact h.progress j u hu
  · intro e he
    rw [hlog] at he
    obtain ⟨u, hu, ha⟩ := h.source e he
    rw [htasks]
    refine ⟨_, getElem?_modify_eq_some.2 ⟨u, hu, rfl⟩, ?_⟩
    split_ifs <;> exact ha
  · rw [hlog, htasks, hstops, List.length_modify]
    exact h.bounds
  · rw [hlog, hstops]
    exact h.stopped
  · intro k n _ j hj
    rw [hheld'] at hj
    cases hj

/-- Task `i` moves: what is left to check is what the log says of it and who can still run. -/
theorem PhaseInv.moved (h : PhaseInv s) (ht : s.tasks[i]? = some t) (hlive : t.stage ≠ .done)
    (hm : Moved s s' i stage new) (hnew : ∀ e ∈ new, e.task = i ∧ Announces t.plan e)
    (hprogress : Progress t.plan (eventsOf s.log i ++ new) stage)
    (hbehind : new ≠ [] → s.worker.phaseTask = some i ∧ s.worker.status.isActive = true)
    (hheld : ∀ j, s'.worker.phaseTask = some j ↔
      s.worker.phaseTask = some j ∧ (j = i → stage ≠ .done))
    (hactive : ∀ j, s'.worker.phaseTask = some j → s'.worker.status.isActive = true →
      s.worker.status.isActive = true) : PhaseInv s' := by
  have hget : ∀ (j : ℕ) (u : PhaseTask F), s'.tasks[j]? = some u →
      (j = i ∧ u = { t with stage }) ∨ (j ≠ i ∧ s.tasks[j]? = some u) := by
    intro j u hu
    rw [hm.tasks, getElem?_modify_eq_some] at hu
    obtain ⟨v, hv, rfl⟩ := hu
    by_cases hij : i = j
    · subst hij
      rw [if_pos rfl, Option.some.inj (ht.symm.trans hv)]
      exact .inl ⟨rfl, rfl⟩
    · rw [if_neg hij]
      exact .inr ⟨Ne.symm hij, hv⟩
  have hkeep : ∀ (j : ℕ) (u : PhaseTask F), s.tasks[j]? = some u →
      ∃ u', s'.tasks[j]? = some u' ∧ u'.plan = u.plan ∧ u'.cancelled = u.cancelled ∧
        (j ≠ i → u' = u) ∧ (j = i → u'.stage = stage) := by
    intro j u hu
    rw [hm.tasks]
    refine ⟨_, getElem?_modify_eq_some.2 ⟨u, hu, rfl⟩, ?_⟩
    by_cases hij : i = j
    · rw [if_pos hij]
      exact ⟨rfl, rfl, fun hne => absurd hij.symm hne, fun _ => rfl⟩
    · rw [if_neg hij]
      exact ⟨rfl, rfl, fun _ => rfl, fun he => absurd he.symm hij⟩
  refine ⟨?_, ?_, ?_, ?_, ?_, ?_, ?_, ?_⟩
  · intro j hj
    obtain ⟨hj, hne⟩ := (hheld j).1 hj
    obtain ⟨u, hu, hc, hd⟩ := h.held j hj
    obtain ⟨u', hu', -, hc', hother, hself⟩ := hkeep j u hu
    refine ⟨u', hu', hc'.trans hc, ?_⟩
    by_cases hij : j = i
    · rw [hself hij]
      exact hne hij
    · rw [hother hij]
      exact hd
  · intro j u hu hc hd
    obtain ⟨rfl, rfl⟩ | ⟨hij, hu⟩ := hget j u hu
    · exact (hheld j).2 ⟨h.live j t ht hc hlive, fun _ => hd⟩
    · exact (hheld j).2 ⟨h.live j u hu hc hd, fun he => absurd he hij⟩
  · intro j u hj hu ha
    rw [hm.plan]
    obtain ⟨rfl, rfl⟩ | ⟨-, hu⟩ := hget j u hu
    · exact h.plan j t ((hheld j).1 hj).1 ht (hactive j hj ha)
    · exact h.plan j u ((hheld j).1 hj).1 hu (hactive j hj ha)
  · intro j u hu
    rw [hm.log]
    obtain ⟨rfl, rfl⟩ | ⟨hij, hu⟩ := hget j u hu
    · rw [eventsOf_append_self fun e he => (hnew e he).1]
      exact hprogress
    · rw [eventsOf_append_of_ne (fun e he => (hnew e he).1) hij]
      exact h.progress j u hu
  · intro e he
    rw [hm.log, List.mem_append] at he
    obtain he | he := he
    · obtain ⟨u, hu, ha⟩ := h.source e he
      obtain ⟨u', hu', hp, -⟩ := hkeep _ u hu
      exact ⟨u', hu', hp ▸ ha⟩
    · obtain ⟨rfl, ha⟩ := hnew e he
      obtain ⟨u', hu', hp, -⟩ := hkeep _ t ht
      exact ⟨u', hu', hp ▸ ha⟩
  · intro k n hk
    rw [hm.stops] at hk
    obtain ⟨hl, hn⟩ := h.bounds k n hk
    rw [hm.log, hm.tasks, List.length_modify, List.length_append]
    exact ⟨by omega, hn⟩
  · intro k n hk e he
    rw [hm.stops] at hk
    rw [hm.log, List.drop_append_of_le_length (h.bounds k n hk).1, List.mem_append] at he
    obtain he | he := he
    · exact h.stopped k n hk e he
    · -- the task that puts an event in the queue was active, so it started behind the stop
      obtain ⟨hi, ha⟩ := hbehind (List.ne_nil_of_mem he)
      rw [(hnew e he).1]
      by_contra hlt
      rw [h.idle k n hk i hi (by omega)] at ha
      cases ha
  · intro k n hk j hj hlt
    rw [hm.stops] at hk
    have hidle := h.idle k n hk j ((hheld j).1 hj).1 hlt
    by_contra ha
    rw [Bool.not_eq_false] at ha
    rw [hactive j hj ha] at hidle
    cases hidle

omit [PyFloat F] [PyText F] [Cbor F] in
theorem released_iff (h : Released s s' i) (j : ℕ) : s'.worker.phaseTask = some j ↔
    s.worker.phaseTask = some j ∧ (j = i → Stage.done ≠ .done) := by
  unfold Released at h
  rw [h]
  split_ifs with hi
  · rw [hi]
    refine ⟨fun he => ?_, fun hj => absurd rfl (hj.2 (Option.some.inj hj.1).symm)⟩
    cases he
  · exact ⟨fun hj => ⟨hj, fun he => absurd (he ▸ hj) hi⟩, And.left⟩

/-- The task the worker holds comes to its end. -/
theorem PhaseInv.ended (h : PhaseInv s) (ht : s.tasks[i]? = some t) (hc : t.cancelled = false)
    (hlive : t.stage ≠ .done) (hm : Moved s s' i .done new) (hr : Released s s' i)
    (hnew : ∀ e ∈ new, e.task = i ∧ Announces s.worker.phasePlan e)
    (hactive : new ≠ [] → s.worker.status.isActive = true)
    (horder : (new ≠ [] → t.plan = s.worker.phasePlan) →
      InOrder t.plan (eventsOf s.log i ++ new)) : PhaseInv s' := by
  have hheld := h.live i t ht hc hlive
  have hplan : new ≠ [] → t.plan = s.worker.phasePlan := fun hne =>
    h.plan i t hheld ht (hactive hne)
  refine h.moved ht hlive hm (fun e he => ?_) (horder hplan) (fun hne => ⟨hheld, hactive hne⟩)
    (released_iff hr) fun j hj => ?_
  · rw [hplan (List.ne_nil_of_mem he)]
    exact hnew e he
  · unfold Released at hr
    rw [hr, if_pos hheld] at hj
    cases hj

theorem PhaseInv.woken (h : PhaseInv s) (ht : s.tasks[i]? = some t) (hw : Woken s i t s') :
    PhaseInv s' := by
  have hprogress := h.progress i t ht
  have hwait : t.stage.IsWaiting → t.stage ≠ .done := fun hstage he => by
    rw [he] at hstage
    exact hstage
  have hemitted : ∀ {k e}, Emitted s i k e → e.task = i ∧ Announces s.worker.phasePlan e :=
    fun he => ⟨he.task, he.announces⟩
  have hscheduled : s.worker.status = .scheduled → s.worker.status.isActive = true := fun hs => by
    rw [hs]
    rfl
  have hrunning : s.worker.status = .running → s.worker.status.isActive = true := fun hs => by
    rw [hs]
    rfl
  cases hw with
  | dropped hc hlive hm htask hstatus =>
    have hne : s.worker.phaseTask ≠ some i := by
      intro hi
      obtain ⟨u, hu, hcu, -⟩ := h.held i hi
      rw [Option.some.inj (ht.symm.trans hu), hcu] at hc
      cases hc
    have hsame : s'.worker.phaseTask = s.worker.phaseTask := by
      obtain hsame | hr := htask
      · exact hsame
      · unfold Released at hr
        rw [hr, if_neg hne]
    refine h.moved ht hlive hm (fun e he => nomatch he) ?_ (fun hn => absurd rfl hn) (fun j => ?_)
      fun j _ ha => hstatus ▸ ha
    · rw [List.append_nil]
      exact hprogress.inOrder
    · rw [hsame]
      exact ⟨fun hj => ⟨hj, fun he => absurd (he ▸ hj) hne⟩, And.left⟩
  | sleeps hc hstage hm htask hstatus =>
    refine h.moved ht (by rw [hstage]; simp) hm (fun e he => nomatch he) ?_
      (fun hn => absurd rfl hn) (fun j => ?_) fun j _ ha => hstatus ▸ ha
    · rw [List.append_nil]
      exact hprogress.eq_nil (by rw [hstage]; trivial)
    · rw [htask]
      exact ⟨fun hj => ⟨hj, fun _ he => nomatch he⟩, And.left⟩
  | runs e hc hstage hstatus he hm htask hstatus' =>
    have hheld := h.live i t ht hc (hwait hstage)
    have hplan := h.plan i t hheld ht (hscheduled hstatus)
    refine h.moved ht (hwait hstage) hm (fun e' he' => ?_) ?_
      (fun _ => ⟨hheld, hscheduled hstatus⟩) (fun j => ?_) fun j _ _ => hscheduled hstatus
    · rw [List.mem_singleton.1 he', hplan]
      exact hemitted he
    · rw [hprogress.eq_nil hstage, hplan]
      exact ⟨rfl, e, he.kind, he.atUs, rfl⟩
    · rw [htask]
      exact ⟨fun hj => ⟨hj, fun _ he => nomatch he⟩, And.left⟩
  | leaves hc hlive hm hr =>
    refine h.ended ht hc hlive hm hr (fun e he => nomatch he) (fun hn => absurd rfl hn) fun _ => ?_
    rw [List.append_nil]
    exact hprogress.inOrder
  | startsAndLeaves e hc hstage hstatus he hm hr =>
    refine h.ended ht hc (hwait hstage) hm hr (fun e' he' => ?_) (fun _ => hscheduled hstatus)
      fun _ => ?_
    · rw [List.mem_singleton.1 he']
      exact hemitted he
    · rw [hprogress.eq_nil hstage]
      exact .inr ⟨e, he.kind, .inl rfl⟩
  | startsAndCompletes e e' hc hstage hstatus hd he he' hm hr =>
    refine h.ended ht hc (hwait hstage) hm hr (fun d hd => ?_) (fun _ => hscheduled hstatus)
      fun hplan => ?_
    · rw [List.mem_cons, List.mem_singleton] at hd
      obtain rfl | rfl := hd
      · exact hemitted he
      · exact hemitted he'
    · rw [hprogress.eq_nil hstage, hplan (List.cons_ne_nil _ _)]
      refine .inr ⟨e, he.kind, .inr ⟨e', he'.kind, ?_, rfl⟩⟩
      rw [he.atUs, he'.atUs, hd, add_zero]
  | completes e actualStartUs untilUs hc hstage hle hstatus he hm hr =>
    refine h.ended ht hc (by rw [hstage]; simp) hm hr (fun e' he' => ?_)
      (fun _ => hrunning hstatus) fun _ => ?_
    · rw [List.mem_singleton.1 he']
      exact hemitted he
    · rw [hstage] at hprogress
      obtain ⟨huntil, e₀, hk, hat, he₀⟩ := hprogress
      rw [he₀]
      refine .inr ⟨e₀, hk, .inr ⟨e, he.kind, ?_, rfl⟩⟩
      rw [hat, he.atUs, ← huntil]
      exact hle

theorem PhaseInv.step {l : Label F} (h : PhaseInv s) (hok : Exclusive s l)
    (hs : s.step l = some s') : PhaseInv s' := by
  cases move_of_step hs with
  | quiet hq hstops => exact h.quiet hq hstops
  | stopped hq _ hidle hstops => exact h.stop hq hidle hstops
  | starts n hl hn hprepared hstatus hplan hheld htasks hlog hstops =>
    rw [hl] at hok
    exact h.start (hok hn hprepared) hplan hheld htasks hlog hstops
  | cancels i hheld hheld' htasks hstatus hplan hlog hstops =>
    exact h.cancel hheld hheld' htasks hlog hstops
  | woken i t ht hw => exact h.woken ht hw

omit [PyFloat F] [PyText F] [Cbor F] in
theorem phaseTask_create {adapterName : Str} {eventLimit : ℤ} {w : InMemoryWorker F}
    (h : InMemoryWorker.create adapterName eventLimit = .ok w) : w.phaseTask = none := by
  unfold InMemoryWorker.create at h
  split_ifs at h
  rw [← Except.ok.inj h]

theorem phaseInv_create {adapterName : Str} {eventLimit : ℤ} {w : InMemoryWorker F}
    (h : InMemoryWorker.create adapterName eventLimit = .ok w) (nowUs : ℤ) :
    PhaseInv { worker := w, nowUs } := by
  have hnone := phaseTask_create h
  refine ⟨fun i hi => ?_, fun i t ht => ?_, fun i t _ ht => ?_, fun i t ht => ?_,
    fun e he => ?_, fun k n hk => ?_, fun k n hk => ?_, fun k n hk => ?_⟩
  · exact absurd (hnone.symm.trans hi) (by simp)
  · cases ht
  · cases ht
  · cases ht
  · cases he
  · cases hk
  · cases hk
  · cases hk

theorem phases_along {adapterName : Str} {eventLimit nowUs : ℤ} {w : InMemoryWorker F}
    {ls : List (Label F)} (hw : InMemoryWorker.create adapterName eventLimit = .ok w)
    (hrun : run System.step { worker := w, nowUs } ls = some s)
    (hok : Along System.step Exclusive { worker := w, nowUs } ls) : PhasesOk s :=
  (run_invariant_along (fun _ _ _ hi hl hs => hi.step hl hs) hrun hok
    (phaseInv_create hw nowUs)).phasesOk

end Steps

/-! ## Runs -/

section Demo

local instance overlapCodec : Cbor ℚ := strictCodec

def demoPlan (phaseExecutionId : String) : Val ℚ :=
  dictOf [("run_id", .str (py "r")), ("phase_id", .str (py "p")),
    ("phase_execution_id", .str (py phaseExecutionId)), ("duration_us", .int 50)]

def demoWorker : InMemoryWorker ℚ := { adapterName := py "in-memory" }

/-- One phase from its start to its end, then a `stop`. -/
def phaseRun : List (Label ℚ) :=
  [.call .prepareDisabled, .call (.preparePhase (demoPlan "e1")), .call (.startPhase (.int 120)),
    .wake 0, .tick 125, .wake 0, .tick 175, .wake 0, .call (.stop (.dict []))]

/-- The second `stop` finds no task and returns while the first still waits for it. -/
def overlapRun : List (Label ℚ) :=
  [.call .prepareDisabled, .call (.preparePhase (demoPlan "e1")), .call (.startPhase (.int 500)),
    .wake 0, .call (.stop (.dict [])), .call (.stop (.dict [])),
    .call (.preparePhase (demoPlan "e2")), .call (.startPhase (.int 0)), .wake 1, .wake 0,
    .resume 0, .call (.preparePhase (demoPlan "e3")), .tick 120, .call (.startPhase (.int 0)),
    .wake 2, .tick 150, .wake 1]

/-- Task, kind, time and phase of an event. -/
def PhaseEvent.brief (e : PhaseEvent ℚ) : ℕ × EventKind × ℤ × Option Str :=
  (e.task, e.kind, e.atUs, (lookup (py "phase_execution_id") e.event).map Val.toStr)

theorem phases_along_demo : ∃ s, run System.step { worker := demoWorker, nowUs := 100 } phaseRun =
    some s ∧ PhasesOk s ∧ s.stops = [(2, 1)] ∧ s.log.map PhaseEvent.brief =
      [(0, .started, 125, some (py "e1")), (0, .completed, 175, some (py "e1"))] := by
  have hsome : (run System.step { worker := demoWorker, nowUs := 100 } phaseRun).any (fun s =>
      decide (s.stops = [(2, 1)] ∧ s.log.map PhaseEvent.brief =
        [(0, .started, 125, some (py "e1")), (0, .completed, 175, some (py "e1"))])) = true := by
    decide +kernel
  obtain ⟨s, hrun, he⟩ := (Option.any_eq_true _ _).1 hsome
  exact ⟨s, hrun, phases_along (show InMemoryWorker.create (py "in-memory") 256 = _ from rfl) hrun
    (by decide +kernel), of_decide_eq_true he⟩

/-- The first `stop` returned behind the first event, when two phases were started; the end of the
second of them comes behind it, under the name of the third phase and before that one's time. -/
theorem overlap_counterexample : ∃ s : System ℚ,
    run System.step { worker := demoWorker, nowUs := 100 } overlapRun = some s ∧
    s.worker.events.length < s.worker.eventLimit ∧ (1, 2) ∈ s.stops ∧
    s.log.map PhaseEvent.brief = [(1, .started, 100, some (py "e2")),
      (2, .started, 120, some (py "e3")), (1, .completed, 150, some (py "e3"))] := by
  have hsome : (run System.step { worker := demoWorker, nowUs := 100 } overlapRun).any (fun s =>
      decide (s.worker.events.length < s.worker.eventLimit ∧ (1, 2) ∈ s.stops ∧
        s.log.map PhaseEvent.brief = [(1, .started, 100, some (py "e2")),
          (2, .started, 120, some (py "e3")), (1, .completed, 150, some (py "e3"))])) = true := by
    decide +kernel
  obtain ⟨s, hrun, he⟩ := (Option.any_eq_true _ _).1 hsome
  exact ⟨s, hrun, of_decide_eq_true he⟩

end Demo

end RemoteRobot.Worker
