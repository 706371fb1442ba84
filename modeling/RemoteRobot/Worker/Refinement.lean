import RemoteRobot.Worker.Remote

/-!
# The worker behind the pipes

A `SubprocessWorker` around the simulator is the simulator: every run of `Link` goes with a run of
`Direct` (`Link.refines`), in which the worker alone gets each call when the process dispatches it;
and every call can end.  `Link` has one call at a time, which runs into no timeout, is not cancelled
and whose write does not fail.

A response that does not fit into its frame ends the process, and an event that finds the queue of
the parent full the transport; both fail calls that the worker alone answers
(`Link.refines_counterexample`).
-/

namespace RemoteRobot.Worker

open Py Except Transition

variable {F : Type}

namespace Link

/-! ## Runs -/

/-- What happens in the worker beside the calls that are made. -/
def Label.inner : Label F → Option (Worker.Label F)
  | .resume => some (.resume 0)
  | .pumpTakes => some .nextEvent
  | .wake i => some (.wake i)
  | .tick nowUs => some (.tick nowUs)
  | _ => none

end Link

def Direct.Label.inner : Direct.Label F → Option (Worker.Label F)
  | .resume => some (.resume 0)
  | .nextEvent => some .nextEvent
  | .wake i => some (.wake i)
  | .tick nowUs => some (.tick nowUs)
  | .call _ => none

namespace Link

section Runs

variable [PyFloat F] [PyText F] [Cbor F] {s s' : Link F} {d : Direct F} {spot : Spot F}

omit [PyText F] in
theorem linked_start {requestTimeout : F} {maxFrameBytes eventLimit : ℤ}
    {parent : SubprocessWorker F}
    (hcreate : SubprocessWorker.create requestTimeout maxFrameBytes eventLimit = .ok parent)
    (text : WorkerError F → Str) : Linked (start parent text) {} .idle := by
  have hpending := (SubprocessWorker.pending_create hcreate).readMessage
    (.hello (py "simulator") methods)
  unfold SubprocessWorker.create at hcreate
  simp only [bind_eq_ok, exists_unit] at hcreate
  obtain ⟨-, -, -, hcreate⟩ := hcreate
  obtain rfl := Except.ok.inj hcreate
  refine ⟨twin_self rfl (fun _ h => by cases h), rfl,
    ⟨⟨[], .nil, rfl, [], rfl, .nil⟩, fun _ h => by cases h⟩, hpending, Nat.one_pos,
    ⟨fun _ => ⟨rfl, rfl⟩, (fun h => by cases h), .inl rfl⟩, False.elim, ?_⟩
  exact ⟨⟨rfl, rfl, rfl, rfl⟩, rfl, rfl, rfl, fun r hr => absurd hr List.not_mem_nil, rfl, rfl, rfl,
    .nil⟩

/-- The worker alone answers each step. -/
theorem Linked.step [PlainCbor F] [LawfulFloat F] (h : Linked s d spot) {l : Label F}
    (hfits : s.fits l = true) (hstep : s.step l = some s') :
    ∃ ks d' spot', run Direct.step d ks = some d' ∧ Linked s' d' spot' ∧
      ks.filterMap Direct.Label.inner = l.inner.toList := by
  have hstay : ∀ spot', Linked s' d spot' → l.inner = none → ∃ ks d' spot',
      run Direct.step d ks = some d' ∧ Linked s' d' spot' ∧
        ks.filterMap Direct.Label.inner = l.inner.toList := by
    intro spot' hlinked hl
    rw [hl]
    exact ⟨[], d, spot', rfl, hlinked, rfl⟩
  have hmove : ∀ k d' spot', d.step k = some d' → Linked s' d' spot' → k.inner = l.inner →
      ∃ ks d' spot', run Direct.step d ks = some d' ∧ Linked s' d' spot' ∧
        ks.filterMap Direct.Label.inner = l.inner.toList := by
    intro k d' spot' hd' hlinked hk
    refine ⟨[k], d', spot', run_cons_eq_some.2 ⟨d', hd', rfl⟩, hlinked, ?_⟩
    rw [← hk]
    cases k <;> rfl
  cases l with
  | call c =>
    obtain ⟨spot', d', rfl | hd', hlinked⟩ := h.call hfits hstep
    · exact hstay spot' hlinked rfl
    · exact hmove (.call c) d' spot' hd' hlinked rfl
  | finish =>
    obtain ⟨spot', hlinked⟩ := h.finish hstep
    exact hstay spot' hlinked rfl
  | nextEvent => exact hstay spot (h.nextEvent hstep) rfl
  | write k =>
    obtain ⟨c, id, frame, -, hlinked⟩ := h.write hstep
    exact hstay _ hlinked rfl
  | drained k => exact hstay spot (h.drained hstep) rfl
  | wakeRpc k =>
    obtain ⟨c, hlinked⟩ := h.wakeRpc hstep
    exact hstay _ hlinked rfl
  | closeNext i =>
    obtain ⟨spot', hlinked⟩ := h.closeNext hstep
    exact hstay spot' hlinked rfl
  | reap => exact hstay spot (h.reap hstep) rfl
  | deliver =>
    obtain ⟨spot', hlinked, -⟩ := h.deliver hfits hstep
    exact hstay spot' hlinked rfl
  | hostReads =>
    obtain ⟨c, k, id, frame, leg, d', -, -, hd', hlinked⟩ := h.hostReads hstep
    exact hmove (.call c) d' _ hd' hlinked rfl
  | hostWrites =>
    obtain ⟨c, k, id, reply, -, hlinked⟩ := h.hostWrites hfits hstep
    exact hstay _ hlinked rfl
  | exit => exact hstay spot (h.exit hstep) rfl
  | pumpTakes =>
    obtain ⟨d', hd', hlinked⟩ := h.pumpTakes hstep
    exact hmove .nextEvent d' spot hd' hlinked rfl
  | pumpWrites => exact hstay spot (h.pumpWrites hfits hstep) rfl
  | resume =>
    obtain ⟨c, k, id, reply, d', -, hd', hlinked⟩ := h.resume hstep
    exact hmove .resume d' _ hd' hlinked rfl
  | wake i =>
    obtain ⟨system, hsystem, hlinked⟩ := h.inside (l := .wake i) trivial hstep
    refine hmove (.wake i) { d with system } spot ?_ hlinked rfl
    simp only [Direct.step, hsystem, Option.map_some]
  | tick nowUs =>
    obtain ⟨system, hsystem, hlinked⟩ := h.inside (l := .tick nowUs) trivial hstep
    refine hmove (.tick nowUs) { d with system } spot ?_ hlinked rfl
    simp only [Direct.step, hsystem, Option.map_some]

/-- What the caller of a `SubprocessWorker` sees is what the caller of the worker alone sees. -/
structure Agrees (s : Link F) (d : Direct F) : Prop where
  results : ∃ old, old <+: d.history ∧ List.Forall₂ (SameResult s.text) s.history old
  /-- no call is open -/
  ended : s.current = none → d.current = none ∧ List.Forall₂ (SameResult s.text) s.history d.history
  /-- the events that were received come first -/
  events : ∃ received rest, d.events = received ++ rest ∧
    List.Forall₂ SameEvent received (s.delivered ++ s.parent.events) ∧
    (s.output = [] → s.pump = none → rest = [])
  requestIds : (s.parent.rpcs.filterMap Rpc.requestId).Nodup
  /-- every request gets its response -/
  responses : s.parent.responses.map Prod.fst <+: s.parent.rpcs.filterMap Rpc.requestId
  responded : s.current = none →
    s.parent.responses.map Prod.fst = s.parent.rpcs.filterMap Rpc.requestId

/-- Some run of the worker alone, with the same steps inside and the same clock, shows the same. -/
def Mirrored (labels : List (Label F)) (s : Link F) : Prop :=
  ∃ labels' d, run Direct.step {} labels' = some d ∧
    labels'.filterMap Direct.Label.inner = labels.filterMap Label.inner ∧ Agrees s d

omit [PyText F] in
theorem Linked.results (h : Linked s d spot) : ∃ old rest, d.history = old ++ rest ∧
    List.Forall₂ (SameResult s.text) s.history old ∧ (s.current = none → rest = [] ∧ d.current = none) := by
  cases spot with
  | idle =>
    have hi : Idle s d.history := h.stands
    exact ⟨d.history, [], (List.append_nil _).symm, hi.history, fun _ => ⟨rfl, h.current⟩⟩
  | flight c k id leg =>
    have hf : Flight s d.history c k id leg := h.stands
    have hopen : s.current ≠ none := by
      rw [hf.current]
      exact nofun
    obtain ⟨old, hold, hanswers⟩ := hf.history
    cases hreply : leg.reply with
    | none =>
      rw [hreply] at hanswers
      exact ⟨old, [], hanswers.trans (List.append_nil _).symm, hold, fun hc => absurd hc hopen⟩
    | some reply =>
      rw [hreply] at hanswers
      obtain ⟨-, reply', -, hanswers⟩ := hanswers
      exact ⟨old, _, hanswers, hold, fun hc => absurd hc hopen⟩
  | finished c k =>
    have ho : Over s d.history c k := h.stands
    obtain ⟨old, reply, hold, hanswers, -⟩ := ho.history
    exact ⟨old, _, hanswers, hold, fun hc => nomatch hc.symm.trans ho.current⟩
  | stopping =>
    have hs : Stopping s d.history := h.stands
    obtain ⟨old, hold, hanswers⟩ := hs.history
    exact ⟨old, _, hanswers, hold, fun hc => nomatch hc.symm.trans hs.current⟩
  | shut =>
    have hs : Shut s d.history := h.stands
    obtain ⟨old, hold, hanswers⟩ := hs.history
    cases hcurrent : s.current with
    | none =>
      rw [hcurrent] at hanswers
      exact ⟨old, [], hanswers.trans (List.append_nil _).symm, hold, fun _ => ⟨rfl, h.current⟩⟩
    | some x =>
      rw [hcurrent] at hanswers
      obtain ⟨reply, hanswers, -⟩ := hanswers
      exact ⟨old, _, hanswers, hold, nofun⟩

omit [PyText F] in
theorem Linked.responded (h : Linked s d spot) :
    ∃ owed, Responded s owed ∧ (s.current = none → owed = []) := by
  cases spot with
  | idle =>
    have hi : Idle s d.history := h.stands
    exact ⟨[], hi.responded, fun _ => rfl⟩
  | flight c k id leg =>
    have hf : Flight s d.history c k id leg := h.stands
    exact ⟨_, hf.responded, fun hc => nomatch hc.symm.trans hf.current⟩
  | finished c k =>
    have ho : Over s d.history c k := h.stands
    exact ⟨[], ho.responded, fun _ => rfl⟩
  | stopping =>
    have hs : Stopping s d.history := h.stands
    exact ⟨[], hs.responded, fun _ => rfl⟩
  | shut =>
    have hs : Shut s d.history := h.stands
    exact ⟨[], hs.responded, fun _ => rfl⟩

omit [PyFloat F] [PyText F] [Cbor F] in
/-- No request ID is used twice. -/
theorem requestIds_nodup {q : SubprocessWorker F} (h : SubprocessWorker.Pending q) :
    (q.rpcs.filterMap Rpc.requestId).Nodup := by
  unfold List.Nodup
  rw [List.pairwise_filterMap, List.pairwise_iff_getElem]
  intro i j hi hj hij a ha b hb hab
  subst hab
  have hi' := List.getElem?_eq_getElem hi
  have hj' := List.getElem?_eq_getElem hj
  exact hij.ne (h.distinct i j _ _ a hi' hj' ha hb)

omit [PyText F] in
theorem Linked.agrees (h : Linked s d spot) : Agrees s d := by
  obtain ⟨old, rest, hhistory, hold, hended⟩ := h.results
  obtain ⟨owed, hresponded, howed⟩ := h.responded
  obtain ⟨messages, hframes, -, received, hevents, hreceived⟩ := h.channel.frames
  refine ⟨⟨old, ⟨rest, hhistory.symm⟩, hold⟩, fun hc => ?_,
    ⟨received, _, hevents.trans (List.append_assoc _ _ _), hreceived, fun hout hpump => ?_⟩,
    requestIds_nodup h.pending, ⟨owed, hresponded⟩, fun hc => ?_⟩
  · obtain ⟨rfl, hcurrent⟩ := hended hc
    rw [List.append_nil] at hhistory
    exact ⟨hcurrent, hhistory ▸ hold⟩
  · rw [hout] at hframes
    cases hframes
    rw [hpump]
    rfl
  · obtain rfl := howed hc
    exact (List.append_nil _).symm.trans hresponded

end Runs

/-! ## The call ends -/

section Progress

variable [PyFloat F] [PyText F] [Cbor F] {s s' : Link F} {d : Direct F} {c : Call F} {k id : ℕ}

/-- No step of the caller or of the clock. -/
def Label.IsOwn : Label F → Prop
  | .call _ | .nextEvent | .tick _ => False
  | _ => True

/-- The two processes can go on until the open call ends, or comes to what does not fit. -/
def Ends (s : Link F) : Prop :=
  ∃ labels s', run Link.step s labels = some s' ∧ (∀ l ∈ labels, l.IsOwn) ∧
    Along Link.step (fun s l => s.fits l = true) s labels ∧
    (s'.current = none ∨ ∃ l, (s'.step l).isSome = true ∧ s'.fits l = false)

theorem ends_of_none (h : s.current = none) : Ends s := ⟨[], s, rfl, nofun, trivial, .inl h⟩

theorem ends_of_step {l : Label F} (hstep : s.step l = some s') (hl : l.IsOwn)
    (h : s.fits l = true → Ends s') : Ends s := by
  by_cases hfits : s.fits l = true
  · obtain ⟨labels, s'', hrun, hown, hok, hend⟩ := h hfits
    refine ⟨l :: labels, s'', run_cons_eq_some.2 ⟨s', hstep, hrun⟩, List.forall_mem_cons.2 ⟨hl, hown⟩,
      ⟨hfits, fun m hm => ?_⟩, hend⟩
    obtain rfl := Option.some.inj (hstep.symm.trans hm)
    exact hok
  · exact ⟨[], s, rfl, nofun, trivial, .inr ⟨l, by rw [hstep]; rfl, Bool.eq_false_iff.2 hfits⟩⟩

/-! ### Behind the response -/

theorem Linked.ends_shut (h : Linked s d .shut) : Ends s := by
  have hs : Shut s d.history := h.stands
  obtain ⟨old, -, hanswers⟩ := hs.history
  cases hcurrent : s.current with
  | none => exact ends_of_none hcurrent
  | some x =>
    obtain ⟨c, slot⟩ := x
    rw [hcurrent] at hanswers
    obtain ⟨reply, -, hslot⟩ := hanswers
    cases slot with
    | rpc k =>
      obtain ⟨hf, -⟩ := hslot
      have hfinish : s.step .finish = some { s with
          current := none, history := s.history ++ [(c, Except.error (.refused closedError))] } := by
        simp only [Link.step, Link.finish, hcurrent, hf]
      exact ends_of_step hfinish trivial fun _ => ends_of_none rfl
    | close i =>
      obtain ⟨rfl, -⟩ := hslot
      have hfinish : s.step .finish = some { s with
          current := none, history := s.history ++ [(c, Except.ok .none)] } := by
        simp only [Link.step, Link.finish, hcurrent, hs.closes, List.getElem?_cons_zero, if_true]
      exact ends_of_step hfinish trivial fun _ => ends_of_none rfl

theorem Linked.ends_reaped (h : Linked s d .stopping) (hcode : s.parent.returncode = true) :
    Ends s := by
  have hs : Stopping s d.history := h.stands
  have hq : s.parent.step (.closeNext 0) = some (s.parent.finishClose 0) := by
    obtain hcloses | hcloses := hs.closes <;>
      simp only [SubprocessWorker.step, hcloses, List.getElem?_cons_zero, Option.bind_some,
        SubprocessWorker.closeNext, hcode, if_true]
  have hstep : s.step (.closeNext 0) = some (s.withParent (s.parent.finishClose 0)) := by
    show (s.parent.step (.closeNext 0)).map s.withParent = _
    rw [hq]
    rfl
  exact ends_of_step hstep trivial fun _ => (h.finishClose (h.pending.step hq)).ends_shut

theorem Linked.ends_exited (h : Linked s d .stopping) (hdead : s.parent.alive = false) : Ends s := by
  have hq : s.step .reap = some (s.withParent { s.parent with returncode := true }) := by
    show (s.parent.step .reap).map s.withParent = _
    simp only [SubprocessWorker.step, hdead, Bool.false_eq_true, if_false, Option.map_some]
  exact ends_of_step hq trivial fun _ => (h.reap hq).ends_reaped rfl

theorem Linked.ends_stopping (h : Linked s d .stopping) : Ends s := by
  have hs : Stopping s d.history := h.stands
  cases halive : s.parent.alive with
  | false => exact h.ends_exited halive
  | true =>
    have hexit : s.exit = some (s.withParent { s.parent with alive := false }) := by
      unfold Link.exit
      simp only [hs.host, halive, if_true]
    exact ends_of_step (l := .exit) hexit trivial fun _ => (h.exit hexit).ends_exited rfl

theorem Linked.ends_finished (h : Linked s d (.finished c k)) : Ends s := by
  have ho : Over s d.history c k := h.stands
  cases hc : c.isClose with
  | true =>
    obtain ⟨s', hstep, hlinked⟩ := h.stops hc
    exact ends_of_step hstep trivial fun _ => hlinked.ends_stopping
  | false =>
    have hcurrent := ho.current
    rw [if_neg (by simp [hc])] at hcurrent
    obtain ⟨old, reply, -, -, hends⟩ := ho.history
    obtain ⟨s', hfinish, hnone⟩ : ∃ s', s.finish = some s' ∧ s'.current = none := by
      unfold Link.finish
      simp only [hcurrent]
      split
      · exact ⟨_, rfl, rfl⟩
      · exact ⟨_, rfl, rfl⟩
      · rename_i hreturned hfailed
        cases hstage : s.parent.rpcs[k]?.map Rpc.stage with
        | none =>
          rw [hstage] at hends
          exact hends.elim
        | some stage =>
          rw [hstage] at hends
          cases stage with
          | returned result => exact absurd hstage (hreturned result)
          | failed f => exact absurd hstage (hfailed f)
          | _ => cases reply <;> exact hends.elim
    exact ends_of_step (l := .finish) hfinish trivial fun _ => ends_of_none hnone

/-! ### The request and the response -/

theorem Linked.ends_waiting {reply : Except (WorkerError F) (Val F)}
    (h : Linked s d (.flight c k id (.settled reply)))
    (hwaiting : s.parent.rpcs[k]?.map Rpc.stage = some .waiting) : Ends s := by
  have hf : Flight s d.history c k id (.settled reply) := h.stands
  obtain ⟨r, hr, -, -, outcome, -, hfuture⟩ := hf.rpc
  rw [hr] at hwaiting
  have hstage : r.stage = .waiting := Option.some.inj hwaiting
  obtain ⟨q, hq⟩ : ∃ q, s.parent.wake k r = some q := by
    unfold SubprocessWorker.wake
    rw [hstage, hfuture]
    cases outcome with
    | ok result => exact ⟨_, rfl⟩
    | error record => exact ⟨_, rfl⟩
  have hstep : s.step (.wakeRpc k) = some (s.withParent q) := by
    show (s.parent.step (.wake k)).map s.withParent = _
    simp only [SubprocessWorker.step, hr, Option.bind_some, hq, Option.map_some]
  obtain ⟨c', hlinked⟩ := h.wakeRpc hstep
  exact ends_of_step hstep trivial fun _ => hlinked.ends_finished

theorem Linked.ends_settled {reply : Except (WorkerError F) (Val F)}
    (h : Linked s d (.flight c k id (.settled reply))) : Ends s := by
  have hf : Flight s d.history c k id (.settled reply) := h.stands
  obtain ⟨r, hr, -, hwrites, -⟩ := hf.rpc
  obtain ⟨hstage, -⟩ | ⟨hstage, -⟩ := hwrites
  · have hq : s.parent.step (.drained k) =
        some { s.parent.setStage k .waiting with writeLocked := false } := by
      simp only [SubprocessWorker.step, hr, Option.bind_some, SubprocessWorker.drained, hstage]
    have hstep : s.step (.drained k) =
        some (s.withParent { s.parent.setStage k .waiting with writeLocked := false }) := by
      show (s.parent.step (.drained k)).map s.withParent = _
      rw [hq]
      rfl
    refine ends_of_step hstep trivial fun _ => (h.drained hstep).ends_waiting ?_
    show (s.parent.setRpc k _).rpcs[k]?.map Rpc.stage = _
    rw [SubprocessWorker.getElem?_setRpc, hr, Option.map_some, if_pos rfl, Option.map_some]
  · refine h.ends_waiting ?_
    rw [hr, Option.map_some, hstage]

variable [PlainCbor F] [LawfulFloat F]

/-- The parent reads the events before the response, and the response. -/
theorem Linked.ends_answered {reply : Except (WorkerError F) (Val F)}
    (h : Linked s d (.flight c k id (.answered reply))) : Ends s := by
  obtain ⟨n, hn⟩ : ∃ n, s.output.length = n := ⟨_, rfl⟩
  induction n generalizing s d with
  | zero =>
    obtain ⟨messages, hframes, hresponses, -⟩ := h.channel.frames
    rw [List.length_eq_zero_iff.1 hn] at hframes
    cases hframes
    cases hresponses
  | succ n ih =>
    have hreading : s.parent.reading = true := by
      obtain hread | ⟨-, -, hout⟩ := h.up.reads
      · exact hread
      · rw [hout] at hn
        cases hn
    obtain ⟨frame, output, hout⟩ := List.length_pos_iff_exists_cons.1 (by omega : 0 < s.output.length)
    have hstep : s.deliver = some { s with parent := s.parent.read (s.received frame), output } := by
      unfold Link.deliver
      rw [if_pos hreading, hout]
    refine ends_of_step (l := .deliver) hstep trivial fun hfits => ?_
    obtain ⟨spot', hlinked, htail, rfl | ⟨c', k', id', reply', -, rfl⟩⟩ := h.deliver hfits hstep
    · refine ih hlinked ?_
      rw [htail, List.length_tail, hn, Nat.add_sub_cancel]
    · exact hlinked.ends_settled

theorem Linked.ends_writing {reply : Except (WorkerError F) (Val F)}
    (h : Linked s d (.flight c k id (.writing reply))) : Ends s := by
  have hf : Flight s d.history c k id (.writing reply) := h.stands
  obtain ⟨s', hstep⟩ : ∃ s', s.hostWrites = some s' := by
    unfold Link.hostWrites
    rw [hf.host]
    simp only [Leg.host]
    split
    · exact ⟨_, rfl⟩
    · exact ⟨_, rfl⟩
  refine ends_of_step (l := .hostWrites) hstep trivial fun hfits => ?_
  obtain ⟨c', k', id', reply', -, hlinked⟩ := h.hostWrites hfits hstep
  exact hlinked.ends_answered

/-- The worker waits for a task that has ended. -/
theorem Linked.ends_resumable (h : Linked s d (.flight c k id .dispatching)) {u : Waiting F}
    (hu : s.system.waiting = [u])
    (hdone : (s.system.tasks[u.task]?.map PhaseTask.stage).getD .done = .done) : Ends s := by
  have hf : Flight s d.history c k id .dispatching := h.stands
  obtain ⟨x, hx⟩ : ∃ x, s.system.react (.resume 0) = some x := by
    simp only [System.react, hu, List.getElem?_cons_zero, Option.bind_some, System.resume, hdone,
      if_true]
    cases u with
    | stop v i => exact ⟨_, rfl⟩
    | close i => exact ⟨_, rfl⟩
  obtain ⟨reply, m, rfl, -⟩ := h.twin.resume hx
  have hstep : s.resume = some (s.answered id c.isClose reply m) := by
    unfold Link.resume
    rw [hf.host, hx]
    rfl
  obtain ⟨c', k', id', reply', d', -, -, hlinked⟩ := h.resume hstep
  exact ends_of_step (l := .resume) hstep trivial fun _ => hlinked.ends_writing

theorem Linked.ends_dispatching (h : Linked s d (.flight c k id .dispatching)) : Ends s := by
  have hf : Flight s d.history c k id .dispatching := h.stands
  obtain ⟨u, w, hu, -, -, -, -, hcancelled⟩ := h.twin.busy c rfl
  by_cases hdone : (s.system.tasks[u.task]?.map PhaseTask.stage).getD .done = .done
  · exact h.ends_resumable hu hdone
  · -- the task is cancelled, so that it ends in one step
    cases ht : s.system.tasks[u.task]? with
    | none =>
      rw [ht] at hdone
      exact absurd rfl hdone
    | some t =>
      rw [ht] at hdone
      obtain ⟨m, hm, hwaiting, hended⟩ := System.wake_cancelled ht (hcancelled t ht) hdone
      have hrunning : s.host ≠ .ended := by
        rw [hf.host]
        exact nofun
      have hinside : s.inside (.wake u.task) = some { s with system := m } := by
        unfold Link.inside
        rw [if_pos (h.up.runs hrunning).1]
        simp only [System.step, System.react, ht, Option.bind_some, hm, Option.map_some]
      obtain ⟨system, -, hlinked⟩ := h.inside (l := .wake u.task) trivial hinside
      refine ends_of_step (l := .wake u.task) hinside trivial fun _ =>
        hlinked.ends_resumable (hwaiting.trans hu) ?_
      rw [hended]
      rfl

theorem Linked.ends_sent {frame : Bytes} (h : Linked s d (.flight c k id (.sent frame))) : Ends s := by
  have hf : Flight s d.history c k id (.sent frame) := h.stands
  have hframe : s.parent.sent[s.consumed]? = some frame := hf.unread.1
  obtain ⟨s', hstep⟩ : ∃ s', s.hostReads = some s' := by
    unfold Link.hostReads
    rw [hf.host, hframe]
    simp only [Leg.host]
    split
    · exact ⟨_, rfl⟩
    · exact ⟨_, rfl⟩
  obtain ⟨c', k', id', frame', leg, d', -, rfl | ⟨reply, rfl⟩, -, hlinked⟩ := h.hostReads hstep
  · exact ends_of_step (l := .hostReads) hstep trivial fun _ => hlinked.ends_dispatching
  · exact ends_of_step (l := .hostReads) hstep trivial fun _ => hlinked.ends_writing

theorem Linked.ends_queued {frame : Bytes} (h : Linked s d (.flight c k id (.queued frame))) :
    Ends s := by
  have hf : Flight s d.history c k id (.queued frame) := h.stands
  obtain ⟨r, hr, -, ⟨hstage, hlocked⟩, -⟩ := hf.rpc
  obtain ⟨q, hq⟩ : ∃ q, s.parent.write k r = some q := by
    unfold SubprocessWorker.write
    rw [hstage, hlocked]
    exact ⟨_, rfl⟩
  have hstep : s.step (.write k) = some (s.withParent q) := by
    show (s.parent.step (.write k)).map s.withParent = _
    simp only [SubprocessWorker.step, hr, Option.bind_some, hq, Option.map_some]
  obtain ⟨c', id', frame', -, hlinked⟩ := h.write hstep
  exact ends_of_step hstep trivial fun _ => hlinked.ends_sent

/-- Every open call can end. -/
theorem Linked.ends {spot : Spot F} (h : Linked s d spot) : Ends s := by
  cases spot with
  | idle =>
    have hi : Idle s d.history := h.stands
    exact ends_of_none hi.current
  | flight c k id leg =>
    cases leg with
    | queued frame => exact h.ends_queued
    | sent frame => exact h.ends_sent
    | dispatching => exact h.ends_dispatching
    | writing reply => exact h.ends_writing
    | answered reply => exact h.ends_answered
    | settled reply => exact h.ends_settled
  | finished c k => exact h.ends_finished
  | stopping => exact h.ends_stopping
  | shut => exact h.ends_shut

end Progress

section Refinement

variable [PyFloat F] [PyText F] [Cbor F] [PlainCbor F] [LawfulFloat F]

/-- In every run in which all that is written fits into a frame and every event that is read finds
room, the `SubprocessWorker` shows what the worker alone shows when it gets the same calls, when the
process dispatches them, with the same clock; and the open call can end. -/
theorem refines {requestTimeout : F} {maxFrameBytes eventLimit : ℤ} {parent : SubprocessWorker F}
    (hcreate : SubprocessWorker.create requestTimeout maxFrameBytes eventLimit = .ok parent)
    {text : WorkerError F → Str} {labels : List (Label F)} {s : Link F}
    (hrun : run Link.step (start parent text) labels = some s)
    (hfits : Along Link.step (fun s l => s.fits l = true) (start parent text) labels) :
    Mirrored labels s ∧ Ends s := by
  have hstep : ∀ (s : Link F) (d : Direct F) (l : Label F) (s' : Link F), (∃ spot, Linked s d spot) →
      guarded Link.step (fun s l => s.fits l = true) s l = some s' →
      ∃ ks d', run Direct.step d ks = some d' ∧ (∃ spot, Linked s' d' spot) ∧
        ks.filterMap Direct.Label.inner = l.inner.toList := by
    rintro s d l s' ⟨spot, hlinked⟩ hstep
    obtain ⟨hl, hstep⟩ := guarded_eq_some.1 hstep
    obtain ⟨ks, d', spot', hks, hlinked', hinner⟩ := hlinked.step hl hstep
    exact ⟨ks, d', hks, ⟨spot', hlinked'⟩, hinner⟩
  obtain ⟨labels', d, hd, ⟨spot, hlinked⟩, hinner⟩ :=
    run_simulation hstep (run_guarded.2 ⟨hrun, hfits⟩) ⟨.idle, linked_start hcreate text⟩
  exact ⟨⟨labels', d, hd, hinner, hlinked.agrees⟩, hlinked.ends⟩

/-! ### The calls of the worker alone -/

omit [PlainCbor F] [LawfulFloat F] in
/-- A call is answered at once, or waits. -/
theorem direct_call {d d' : Direct F} {c : Call F} (hstep : d.step (.call c) = some d') :
    d.current = none ∧ ((∃ reply, d'.history = d.history ++ [(c, reply)]) ∨ d'.current = some c) := by
  simp only [Direct.step] at hstep
  split at hstep
  · rename_i reply system hcurrent hcall
    obtain rfl := Option.some.inj hstep
    exact ⟨hcurrent, .inl ⟨reply, rfl⟩⟩
  · rename_i system hcurrent hcall
    obtain rfl := Option.some.inj hstep
    exact ⟨hcurrent, .inr rfl⟩
  · cases hstep

omit [PlainCbor F] [LawfulFloat F] in
/-- Calls alone, none of which waits at the end, are all answered, and in order. -/
theorem history_of_calls {d d' : Direct F} {labels : List (Direct.Label F)}
    (hrun : run Direct.step d labels = some d') (hinner : labels.filterMap Direct.Label.inner = [])
    (hended : d'.current = none) : ∃ calls : List (Call F), labels = calls.map .call ∧
      d'.history.map Prod.fst = d.history.map Prod.fst ++ calls := by
  induction labels generalizing d with
  | nil =>
    obtain rfl := Option.some.inj hrun
    exact ⟨[], rfl, (List.append_nil _).symm⟩
  | cons l labels ih =>
    obtain ⟨m, hm, hrest⟩ := run_cons_eq_some.1 hrun
    cases l with
    | call c =>
      have hinner : labels.filterMap Direct.Label.inner = [] := hinner
      obtain ⟨calls, rfl, hcalls⟩ := ih hrest hinner
      obtain ⟨-, ⟨reply, hreply⟩ | hwaits⟩ := direct_call hm
      · refine ⟨c :: calls, rfl, ?_⟩
        rw [hcalls, hreply, List.map_append, List.append_assoc]
        rfl
      · -- no further call can be made
        cases calls with
        | nil =>
          obtain rfl := Option.some.inj hrest
          rw [hended] at hwaits
          cases hwaits
        | cons c' calls =>
          obtain ⟨m', hm', -⟩ := run_cons_eq_some.1 hrest
          obtain ⟨hidle, -⟩ := direct_call hm'
          rw [hwaits] at hidle
          cases hidle
    | resume | nextEvent | wake | tick => cases hinner

end Refinement

/-! ### Where not all fits -/

section Demo

local instance remoteCodec : Cbor ℚ := strictCodec

local instance remotePlain : PlainCbor ℚ := plainCbor_strictCodec

/-- The simulator behind the pipes. -/
def demoLink (maxFrameBytes eventLimit : ℤ) : Option (Link ℚ) :=
  (SubprocessWorker.create 2 maxFrameBytes eventLimit).toOption.map fun parent =>
    start parent fun _ => py "error"

/-- A call that the worker answers at once. -/
def demoCall (k : ℕ) (c : Call ℚ) : List (Label ℚ) :=
  [.call c, .write k, .drained k, .hostReads, .hostWrites, .deliver, .wakeRpc k, .finish]

/-- An event goes to the parent. -/
def demoEvent : List (Label ℚ) := [.pumpTakes, .pumpWrites, .deliver]

/-- `prepare_disabled` with its event, `start_phase` without a plan, `close`, and `state` behind
it. -/
def demoClosed : List (Label ℚ) :=
  demoCall 0 .prepareDisabled ++ demoEvent ++ [Label.nextEvent] ++ demoCall 1 (.startPhase (.int 5)) ++
    [Label.call .close, .write 2, .drained 2, .hostReads, .hostWrites, .deliver, .wakeRpc 2, .closeNext 0,
      .exit, .reap, .closeNext 0, .finish, .call .state, .finish]

theorem refines_demo : ∃ s₀ s : Link ℚ, demoLink Ipc.defaultMaxFrameBytes 256 = some s₀ ∧
    run step s₀ demoClosed = some s ∧
    s.history.map (fun x => x.2.isOk) = [true, false, true, false] ∧
    s.delivered.length = 1 ∧ Mirrored demoClosed s := by
  have hall : ((demoLink Ipc.defaultMaxFrameBytes 256).any fun s₀ =>
      (run (guarded step fun s l => s.fits l = true) s₀ demoClosed).any fun s =>
        decide (s.history.map (fun x => x.2.isOk) = [true, false, true, false] ∧
          s.delivered.length = 1)) = true := by
    decide +kernel
  obtain ⟨s₀, hs₀, hall⟩ := (Option.any_eq_true _ _).1 hall
  obtain ⟨s, hs, hresults⟩ := (Option.any_eq_true _ _).1 hall
  rw [decide_eq_true_iff] at hresults
  obtain ⟨hs, hfits⟩ := run_guarded.1 hs
  obtain ⟨parent, hparent, rfl⟩ := Option.map_eq_some_iff.1 hs₀
  obtain ⟨hmirrored, -⟩ := refines (toOption_eq_some.1 hparent) hs hfits
  exact ⟨_, s, hs₀, hs, hresults.1, hresults.2, hmirrored⟩

/-- The requests fit into their frames. -/
def requestFits (s : Link ℚ) : Label ℚ → Bool
  | .call c => s.fits (.call c)
  | _ => true

/-- The same calls with the same steps of the worker, every request in a frame, and what the callers
see is not the same. -/
def Differ (maxFrameBytes eventLimit : ℤ) (labels : List (Label ℚ))
    (labels' : List (Direct.Label ℚ)) : Prop :=
  ∃ s₀ s d, demoLink maxFrameBytes eventLimit = some s₀ ∧ run step s₀ labels = some s ∧
    Along step (fun s l => requestFits s l = true) s₀ labels ∧ run Direct.step {} labels' = some d ∧
    labels'.filterMap Direct.Label.inner = labels.filterMap Label.inner ∧ ¬Agrees s d

/-- A result where the other raises, or fewer events than there were. -/
def shows (s : Link ℚ) (d : Direct ℚ) : Bool :=
  s.current.isNone && (s.history.map (fun x => x.2.isOk) != d.history.map (fun x => x.2.isOk) ||
    s.output.isEmpty && s.pump.isNone &&
      (s.delivered ++ s.parent.events).length != d.events.length)

theorem isOk_of_sameResults {text : WorkerError ℚ → Str}
    {x : List (Call ℚ × Except (Failure ℚ) (Val ℚ))}
    {y : List (Call ℚ × Except (WorkerError ℚ) (Val ℚ))}
    (h : List.Forall₂ (SameResult text) x y) :
    x.map (fun x => x.2.isOk) = y.map (fun y => y.2.isOk) := by
  induction h with
  | nil => rfl
  | cons hab _ ih => rw [List.map_cons, List.map_cons, hab.isOk_eq, ih]

theorem calls_of_sameResults {text : WorkerError ℚ → Str}
    {x : List (Call ℚ × Except (Failure ℚ) (Val ℚ))}
    {y : List (Call ℚ × Except (WorkerError ℚ) (Val ℚ))}
    (h : List.Forall₂ (SameResult text) x y) : x.map Prod.fst = y.map Prod.fst := by
  induction h with
  | nil => rfl
  | cons hab _ ih => rw [List.map_cons, List.map_cons, hab.1, ih]

theorem not_agrees_of_shows {s : Link ℚ} {d : Direct ℚ} (h : shows s d = true) : ¬Agrees s d := by
  intro hagrees
  unfold shows at h
  rw [Bool.and_eq_true, Option.isNone_iff_eq_none, Bool.or_eq_true, bne_iff_ne] at h
  obtain ⟨hcurrent, hresults | hevents⟩ := h
  · exact hresults (isOk_of_sameResults (hagrees.ended hcurrent).2)
  · rw [Bool.and_eq_true, Bool.and_eq_true, List.isEmpty_iff, Option.isNone_iff_eq_none, bne_iff_ne]
      at hevents
    obtain ⟨⟨hout, hpump⟩, hne⟩ := hevents
    obtain ⟨received, rest, hd, hreceived, hrest⟩ := hagrees.events
    rw [hrest hout hpump, List.append_nil] at hd
    exact hne (hd ▸ hreceived.length_eq.symm)

theorem differ_of_shows {maxFrameBytes eventLimit : ℤ} {labels : List (Label ℚ)}
    {labels' : List (Direct.Label ℚ)}
    (hinner : labels'.filterMap Direct.Label.inner = labels.filterMap Label.inner)
    (h : ((demoLink maxFrameBytes eventLimit).any fun s₀ =>
      (run (guarded step fun s l => requestFits s l = true) s₀ labels).any fun s =>
        (run Direct.step {} labels').any fun d => shows s d) = true) :
    Differ maxFrameBytes eventLimit labels labels' := by
  obtain ⟨s₀, hs₀, h⟩ := (Option.any_eq_true _ _).1 h
  obtain ⟨s, hs, h⟩ := (Option.any_eq_true _ _).1 h
  obtain ⟨d, hd, h⟩ := (Option.any_eq_true _ _).1 h
  obtain ⟨hs, hfits⟩ := run_guarded.1 hs
  exact ⟨s₀, s, d, hs₀, hs, hfits, hd, hinner, not_agrees_of_shows h⟩

/-- The fault context fits into the request, and not into the response. -/
def longContext : Call ℚ := .stop (dictOf [("reason", .str (List.replicate 60 97))])

def isLongContext : Call ℚ → Bool
  | .stop (.dict [(.str k, .str reason)]) => k == py "reason" && reason == List.replicate 60 97
  | _ => false

theorem eq_longContext {c : Call ℚ} (h : isLongContext c = true) : c = longContext := by
  unfold isLongContext at h
  split at h
  · rw [Bool.and_eq_true, beq_iff_eq, beq_iff_eq] at h
    obtain ⟨rfl, rfl⟩ := h
    rfl
  · cases h

/-- The process ends without a response. -/
def longStop : List (Label ℚ) :=
  [.call longContext, .write 0, .drained 0, .hostReads, .hostWrites, .exit, .deliver, .wakeRpc 0,
    .finish]

/-- Two events, the first of which nobody takes. -/
def fullQueue : List (Label ℚ) :=
  demoCall 0 .prepareDisabled ++ demoEvent ++
    [Label.call .prepareDisabled, .write 1, .drained 1, .hostReads, .pumpTakes, .pumpWrites, .hostWrites,
      .deliver, .wakeRpc 1, .finish]

/-- The event of the start is longer than every response. -/
def lostEvent : List (Label ℚ) :=
  demoCall 0 .prepareDisabled ++ demoEvent ++ demoCall 1 (.preparePhase (demoPlan "e1")) ++ demoEvent ++
    demoCall 2 (.startPhase (.int 120)) ++ [Label.wake 0, .tick 120, .wake 0, .pumpTakes, .pumpWrites]

/-- What the caller of the worker alone gets of `longContext`. -/
theorem longContext_answered {d : Direct ℚ} (h : run Direct.step {} [.call longContext] = some d) :
    d.history.map (fun x => x.2.isOk) = [true] := by
  have hrun : (run Direct.step {} [.call longContext]).any
      (fun d : Direct ℚ => decide (d.history.map (fun x => x.2.isOk) = [true])) = true := by
    decide +kernel
  rw [h, Option.any_some, decide_eq_true_iff] at hrun
  exact hrun

theorem longStop_not_mirrored : ∃ s₀ s : Link ℚ, demoLink 150 256 = some s₀ ∧
    run step s₀ longStop = some s ∧ Along step (fun s l => requestFits s l = true) s₀ longStop ∧
    ¬Mirrored longStop s := by
  have hall : ((demoLink 150 256).any fun s₀ =>
      (run (guarded step fun s l => requestFits s l = true) s₀ longStop).any fun s =>
        s.current.isNone && (s.history.map Prod.fst).map isLongContext == [true] &&
          (s.history.map fun x => x.2.isOk) == [false]) = true := by decide +kernel
  obtain ⟨s₀, hs₀, hall⟩ := (Option.any_eq_true _ _).1 hall
  obtain ⟨s, hs, hchecks⟩ := (Option.any_eq_true _ _).1 hall
  obtain ⟨hs, hfits⟩ := run_guarded.1 hs
  rw [Bool.and_eq_true, Bool.and_eq_true, Option.isNone_iff_eq_none, beq_iff_eq, beq_iff_eq]
    at hchecks
  obtain ⟨⟨hcurrent, hcontext⟩, hfailed⟩ := hchecks
  refine ⟨s₀, s, hs₀, hs, hfits, ?_⟩
  rintro ⟨labels, d, hd, hinner, hagrees⟩
  obtain ⟨hended, hsame⟩ := hagrees.ended hcurrent
  obtain ⟨calls, rfl, hcalls⟩ := history_of_calls hd hinner hended
  obtain rfl : calls = [longContext] := by
    have hcalls : calls.map isLongContext = [true] := by
      rw [← hcontext, calls_of_sameResults hsame, hcalls]
      rfl
    obtain ⟨c, rfl, hc⟩ := List.map_eq_singleton_iff.1 hcalls
    rw [eq_longContext hc]
  have hanswered := longContext_answered hd
  rw [← isOk_of_sameResults hsame, hfailed] at hanswered
  cases hanswered

/-- It takes more than requests that fit: a response that does not fit ends the process, and no run of
the worker alone shows the same; an event that finds no room ends the transport, and one that does
not fit is lost with all behind it. -/
theorem refines_counterexample :
    (∃ s₀ s : Link ℚ, demoLink 150 256 = some s₀ ∧ run step s₀ longStop = some s ∧
      Along step (fun s l => requestFits s l = true) s₀ longStop ∧ ¬Mirrored longStop s) ∧
    Differ Ipc.defaultMaxFrameBytes 1 fullQueue
      [.call .prepareDisabled, .nextEvent, .call .prepareDisabled, .nextEvent] ∧
    Differ 150 256 lostEvent
      [.call .prepareDisabled, .nextEvent, .call (.preparePhase (demoPlan "e1")), .nextEvent,
        .call (.startPhase (.int 120)), .wake 0, .tick 120, .wake 0, .nextEvent] :=
  ⟨longStop_not_mirrored, differ_of_shows rfl (by decide +kernel),
    differ_of_shows rfl (by decide +kernel)⟩

end Demo

end Link

end RemoteRobot.Worker
