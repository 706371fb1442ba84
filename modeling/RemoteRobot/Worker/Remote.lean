import RemoteRobot.Worker.Pipes

/-!
# The request in flight

What the steps of the parent, of the process and of the caller make of the one request that is open:
it goes from leg to leg, and ends with what the worker alone returned or raised.
-/

namespace RemoteRobot.Worker

open Py Except Transition

open Ipc (ErrorRecord WireMessage SameOutcome encodeFrame eventEnvelope requestEnvelope
  responseEnvelope validateWireMessage)

variable {F : Type}

namespace Link

/-! ## Steps of the request -/

section Request

variable [PyFloat F] [PyText F] [Cbor F] {s s' : Link F} {d : Direct F} {spot : Spot F}

omit [PyText F] in
/-- A call that has not ended is the one in flight. -/
theorem Linked.active (h : Linked s d spot) {j : ℕ} {r : Rpc F} (hr : s.parent.rpcs[j]? = some r)
    (hopen : ¬IsFinal r.stage) : ∃ c id leg, spot = .flight c j id leg := by
  have hmem := List.mem_of_getElem? hr
  cases spot with
  | idle =>
    have hs : Idle s d.history := h.stands
    exact absurd (hs.rpcs r hmem) hopen
  | flight c k id leg =>
    have hs : Flight s d.history c k id leg := h.stands
    obtain rfl : j = k := by
      by_contra hne
      exact hopen (hs.others j r hr hne)
    exact ⟨c, id, leg, rfl⟩
  | finished c k =>
    have hs : Over s d.history c k := h.stands
    exact absurd (hs.rpcs r hmem) hopen
  | stopping =>
    have hs : Stopping s d.history := h.stands
    exact absurd (hs.rpcs r hmem) hopen
  | shut =>
    have hs : Shut s d.history := h.stands
    exact absurd (hs.rpcs r hmem) hopen

/-- The request is written. -/
theorem Linked.write (h : Linked s d spot) {k : ℕ} (hstep : s.step (.write k) = some s') :
    ∃ c id frame, spot = .flight c k id (.queued frame) ∧
      Linked s' d (.flight c k id (.sent frame)) := by
  obtain ⟨q, hq, rfl⟩ := Option.map_eq_some_iff.1 hstep
  have hpending := h.pending.step hq
  obtain ⟨r, hr, hq⟩ := Option.bind_eq_some_iff.1 hq
  unfold SubprocessWorker.write at hq
  split at hq
  · rename_i frame hstage
    split at hq
    · cases hq
    obtain ⟨c, id, leg, rfl⟩ := h.active hr (by rw [hstage]; exact id)
    have hf : Flight s d.history c k id leg := h.stands
    obtain ⟨r', hr', -, hwrites, hawaits⟩ := hf.rpc
    obtain rfl := Option.some.inj (hr.symm.trans hr')
    rw [hstage] at hwrites
    cases leg with
    | queued frame' =>
      obtain ⟨he, -⟩ := hwrites
      obtain rfl := RpcStage.queued.inj he
      have hrunning : s.host ≠ .ended := by
        rw [hf.host]
        exact fun he => nomatch he
      obtain ⟨halive, hcode⟩ := h.up.runs hrunning
      simp only [halive, hf.live.stdinOpen, Bool.and_self, if_true, Option.some.injEq] at hq
      subst hq
      refine ⟨c, id, frame, rfl, h.twin, h.current, h.channel.congr rfl rfl rfl rfl rfl rfl,
        hpending, h.next, ⟨h.up.runs, h.up.closing, h.up.reads⟩, fun hc => (nomatch hc.2), ?_⟩
      refine hf.advance (.sent frame) (g := fun r => { r with stage := .draining }) ?_
        (fun _ => rfl)
        (fun _ hm => hm) rfl ?_ (fun r' hr' => ?_) ?_ rfl
      · exact ⟨rfl, rfl, rfl, rfl, rfl, rfl, rfl⟩
      · have hsent : s.parent.sent.length = s.consumed := hf.unread
        exact ⟨by simp [← hsent], by simp [hsent]⟩
      · obtain rfl := Option.some.inj (hr.symm.trans hr')
        exact ⟨.inl ⟨rfl, rfl⟩, hawaits⟩
      · rfl
    | _ => obtain ⟨he, -⟩ | ⟨he, -⟩ := hwrites <;> cases he
  · cases hq

theorem Linked.drained (h : Linked s d spot) {k : ℕ} (hstep : s.step (.drained k) = some s') :
    Linked s' d spot := by
  obtain ⟨q, hq, rfl⟩ := Option.map_eq_some_iff.1 hstep
  have hpending := h.pending.step hq
  obtain ⟨r, hr, hq⟩ := Option.bind_eq_some_iff.1 hq
  unfold SubprocessWorker.drained at hq
  split at hq
  · rename_i hstage
    obtain rfl := Option.some.inj hq
    obtain ⟨c, id, leg, rfl⟩ := h.active hr (by rw [hstage]; exact id)
    have hf : Flight s d.history c k id leg := h.stands
    obtain ⟨r', hr', -, hwrites, hawaits⟩ := hf.rpc
    obtain rfl := Option.some.inj (hr.symm.trans hr')
    rw [hstage] at hwrites
    refine ⟨h.twin, h.current, h.channel.congr rfl rfl rfl rfl rfl rfl, hpending,
      h.next, ⟨h.up.runs, h.up.closing, h.up.reads⟩, h.hasClosed, ?_⟩
    refine hf.advance leg (g := fun r => { r with stage := .waiting }) ?_ (fun _ => rfl)
      (fun _ hm => hm) rfl ?_ (fun r' hr' => ?_) ?_ rfl
    · exact ⟨rfl, rfl, rfl, rfl, rfl, rfl, rfl⟩
    · exact hf.unread
    · obtain rfl := Option.some.inj (hr.symm.trans hr')
      refine ⟨?_, hawaits⟩
      cases leg with
      | queued frame => exact nomatch hwrites.1
      | _ => exact .inr ⟨rfl, rfl⟩
    · rfl
  · cases hq

omit [PyText F] [Cbor F] in
theorem isLast_eq {c : Call F} {reply : Except (WorkerError F) (Val F)} (h : c.Answers reply) :
    Leg.isLast c reply = c.isClose := by
  cases reply with
  | ok v => exact Bool.and_true _
  | error e =>
    have hc : c.isClose = false := h
    rw [Leg.isLast, hc]
    rfl

/-- How `_rpc` ends with the outcome of its response. -/
def stageOf : Except ErrorRecord (Dict F) → RpcStage F
  | .ok result => .returned result
  | .error record => .failed (.response (.remote record.code record.message))

omit [PyFloat F] [PyText F] [Cbor F] in
theorem isFinal_stageOf (outcome : Except ErrorRecord (Dict F)) : IsFinal (stageOf outcome) := by
  cases outcome <;> trivial

omit [PyText F] [Cbor F] in
/-- What the call returns or raises behind its response. -/
theorem endsAs_stageOf {text : WorkerError F → Str} {c : Call F}
    {reply reply' : Except (WorkerError F) (Val F)} (hanswers : c.Answers reply)
    (hreply : SameReply c reply reply') {outcome : Except ErrorRecord (Dict F)}
    (hsame : SameOutcome (responseOf text reply) outcome) :
    EndsAs text c (some (stageOf outcome)) reply' := by
  cases reply with
  | error e' =>
    cases reply' with
    | ok v => exact hreply.elim
    | error e =>
      cases outcome with
      | ok result => exact hsame.elim
      | error record =>
        obtain rfl : record = errorRecord text e' := Eq.symm hsame
        exact ⟨hanswers, .inr ⟨e', hreply, rfl⟩⟩
  | ok w =>
    cases reply' with
    | error e' => exact hreply.elim
    | ok v =>
      obtain rfl : w = v := hreply
      have hw : if c.isClose then w = .none else
          ∃ u, w = .dict u ∧ (Val.dict u).wellFormed = true := hanswers
      cases outcome with
      | error record => cases w <;> exact hsame.elim
      | ok result =>
        show if c.isClose then _ else _
        split_ifs at hw ⊢
        · exact hw
        · obtain ⟨u, rfl, -⟩ := hw
          exact hsame

omit [PyFloat F] [PyText F] [Cbor F] in
theorem wake_settle {q : SubprocessWorker F} {k : ℕ} {r : Rpc F} (hstage : r.stage = .waiting)
    {outcome : Except ErrorRecord (Dict F)} (hfuture : r.future = SubprocessWorker.settle outcome) :
    q.wake k r = some (q.setStage k (stageOf outcome)) := by
  unfold SubprocessWorker.wake
  rw [hstage, hfuture]
  cases outcome <;> rfl

omit [PyFloat F] [PyText F] [Cbor F] in
/-- A request in flight has not ended. -/
theorem Leg.Writes.not_isFinal {leg : Leg F} {stage : RpcStage F} {locked : Bool}
    (h : leg.Writes stage locked) : ¬IsFinal stage := by
  cases leg with
  | queued frame =>
    obtain ⟨rfl, -⟩ := h
    exact id
  | _ => obtain ⟨rfl, -⟩ | ⟨rfl, -⟩ := h <;> exact id

/-- The call gets its response. -/
theorem Linked.wakeRpc (h : Linked s d spot) {k : ℕ} (hstep : s.step (.wakeRpc k) = some s') :
    ∃ c, Linked s' d (.finished c k) := by
  obtain ⟨q, hq, rfl⟩ := Option.map_eq_some_iff.1 hstep
  have hpending := h.pending.step hq
  obtain ⟨r, hr, hq⟩ := Option.bind_eq_some_iff.1 hq
  have hstage : r.stage = .waiting := by
    unfold SubprocessWorker.wake at hq
    split at hq <;> first | assumption | cases hq
  obtain ⟨c, id, leg, rfl⟩ := h.active hr (by rw [hstage]; exact id)
  have hf : Flight s d.history c k id leg := h.stands
  obtain ⟨r', hr', -, hwrites, hawaits⟩ := hf.rpc
  obtain rfl := Option.some.inj (hr.symm.trans hr')
  rw [hstage] at hwrites
  cases leg with
  | settled reply =>
    obtain ⟨outcome, hsame, hfuture⟩ := hawaits
    obtain ⟨old, hold, hanswers, reply', hreply, hhistory⟩ := hf.history
    have hlast := isLast_eq hanswers
    have hlocked : s.parent.writeLocked = false := by
      obtain ⟨he, -⟩ | ⟨-, hl⟩ := hwrites
      · cases he
      · exact hl
    rw [wake_settle hstage hfuture] at hq
    obtain rfl := Option.some.inj hq
    refine ⟨c, h.twin, h.current, h.channel.congr rfl rfl rfl rfl rfl rfl, hpending,
      h.next, ⟨h.up.runs, h.up.closing, h.up.reads⟩, fun hc => h.hasClosed ⟨hc, rfl⟩,
      ⟨hf.live.closed, hf.live.readable, hf.live.closing, hf.live.stdinOpen⟩, ?_, hf.unread,
      hf.current, fun r₁ hr₁ => ?_, hlocked, hf.closes, ?_, old, reply', hold, hhistory, ?_⟩
    · rw [← hlast]
      exact hf.host
    · obtain ⟨j, hj⟩ := List.mem_iff_getElem?.1 hr₁
      have hj : (s.parent.setRpc k fun r => { r with stage := stageOf outcome }).rpcs[j]? =
        some r₁ := hj
      rw [SubprocessWorker.getElem?_setRpc] at hj
      obtain ⟨r₀, hr₀, rfl⟩ := Option.map_eq_some_iff.1 hj
      split_ifs with hkj
      · exact isFinal_stageOf outcome
      · exact hf.others j r₀ hr₀ (Ne.symm hkj)
    · have hresponded := hf.responded
      unfold Responded at hresponded ⊢
      rw [← requestIds_setRpc s.parent k
        (f := fun r => { r with stage := stageOf outcome }) fun _ => rfl] at hresponded
      exact hresponded
    · have hstaged : (s.parent.setStage k (stageOf outcome)).rpcs[k]?.map Rpc.stage =
          some (stageOf outcome) := by
        show (s.parent.setRpc k _).rpcs[k]?.map Rpc.stage = _
        rw [SubprocessWorker.getElem?_setRpc, hr, Option.map_some, if_pos rfl, Option.map_some]
      show EndsAs s.text c ((s.parent.setStage k (stageOf outcome)).rpcs[k]?.map Rpc.stage) reply'
      rw [hstaged]
      exact endsAs_stageOf hanswers hreply hsame
  | queued frame => cases hwrites.1
  | _ =>
    unfold SubprocessWorker.wake at hq
    rw [hstage, show r.future = .pending from hawaits] at hq
    cases hq

omit [PyText F] in
/-- A step of the process. -/
theorem Flight.serve {c : Call F}
    {answers answers' : List (Call F × Except (WorkerError F) (Val F))}
    {k id : ℕ} {leg : Leg F} (hf : Flight s answers c k id leg) (leg' : Leg F)
    (hparent : s'.parent = s.parent) (htext : s'.text = s.text) (hcurrent : s'.current = s.current)
    (hsame : s'.history = s.history) (hhost : s'.host = leg'.host s.text c id)
    (hrequest : leg'.request = none) (hunread : leg'.Unread s.parent.sent s'.consumed)
    (hwrites : ∀ stage locked, leg.Writes stage locked → leg'.Writes stage locked)
    (hawaits : ∀ future, leg.Awaits s.text future → leg'.Awaits s.text future)
    (howed : leg'.owed id = leg.owed id)
    (hhistory : ∀ old, List.Forall₂ (SameResult s.text) s.history old → (match leg.reply with
      | none => answers = old
      | some reply => c.Answers reply ∧
          ∃ reply', SameReply c reply reply' ∧ answers = old ++ [(c, reply')]) →
      match leg'.reply with
      | none => answers' = old
      | some reply => c.Answers reply ∧
          ∃ reply', SameReply c reply reply' ∧ answers' = old ++ [(c, reply')]) :
    Flight s' answers' c k id leg' := by
  obtain ⟨r, hr, hi, hw, ha⟩ := hf.rpc
  obtain ⟨old, hold, hold'⟩ := hf.history
  refine ⟨?_, hf.sendable, fun frame hm => ?_, hf.positive, ?_, ?_, ?_, ⟨r, ?_, hi, ?_, ?_⟩, ?_,
    ?_, ?_, old, ?_, hhistory old hold hold'⟩
  · rw [hparent]
    exact hf.live
  · rw [hrequest] at hm
    cases hm
  · rw [htext]
    exact hhost
  · rw [hparent]
    exact hunread
  · rw [hcurrent]
    exact hf.current
  · rw [hparent]
    exact hr
  · rw [hparent]
    exact hwrites _ _ hw
  · rw [htext]
    exact hawaits _ ha
  · rw [hparent]
    exact hf.others
  · rw [hparent]
    exact hf.closes
  · unfold Responded
    rw [hparent, howed]
    exact hf.responded
  · rw [hsame, htext]
    exact hold

omit [PyText F] [Cbor F] in
theorem Flight.unread_eq {answers : List (Call F × Except (WorkerError F) (Val F))} {c : Call F}
    {k id : ℕ} {leg : Leg F} [Cbor F] (hf : Flight s answers c k id leg) {frame : Bytes}
    (hframe : s.parent.sent[s.consumed]? = some frame) :
    leg = .sent frame ∧ s.parent.sent.length = s.consumed + 1 := by
  have hnone : s.parent.sent.length ≠ s.consumed := by
    intro hl
    rw [List.getElem?_eq_none hl.le] at hframe
    cases hframe
  cases leg with
  | sent frame' =>
    obtain ⟨hget, hl⟩ := hf.unread
    obtain rfl := Option.some.inj (hframe.symm.trans hget)
    exact ⟨rfl, hl⟩
  | _ => exact absurd hf.unread hnone

omit [PyText F] in
/-- The process reads the request of the call in flight. -/
theorem Linked.unread (h : Linked s d spot) {frame : Bytes}
    (hframe : s.parent.sent[s.consumed]? = some frame) (hhost : s.host = .reading) :
    ∃ c k id, spot = .flight c k id (.sent frame) ∧ s.parent.sent.length = s.consumed + 1 := by
  have hnone : s.parent.sent.length ≠ s.consumed := by
    intro hl
    rw [List.getElem?_eq_none hl.le] at hframe
    cases hframe
  cases spot with
  | idle =>
    have hs : Idle s d.history := h.stands
    exact absurd hs.unread hnone
  | flight c k id leg =>
    have hs : Flight s d.history c k id leg := h.stands
    obtain ⟨rfl, hl⟩ := hs.unread_eq hframe
    exact ⟨c, k, id, rfl, hl⟩
  | finished c k =>
    have hs : Over s d.history c k := h.stands
    exact absurd hs.unread hnone
  | stopping =>
    have hs : Stopping s d.history := h.stands
    exact nomatch hhost.symm.trans hs.host
  | shut =>
    have hs : Shut s d.history := h.stands
    exact nomatch hhost.symm.trans hs.host

/-- Where the process stands while it serves the request. -/
def Leg.IsServed : Leg F → Prop
  | .sent _ | .dispatching => True
  | _ => False

variable {c : Call F} {k id : ℕ} {leg : Leg F}

omit [PyText F] in
theorem Linked.reading (h : Linked s d (.flight c k id leg)) (hserved : leg.IsServed) :
    s.host ≠ .ended ∧ s.parent.reading = true := by
  have hf : Flight s d.history c k id leg := h.stands
  have hrunning : s.host ≠ .ended := by
    rw [hf.host]
    cases leg with
    | sent | dispatching => exact nofun
    | _ => exact hserved.elim
  exact ⟨hrunning, h.up.reading hrunning⟩

omit [PyText F] in
/-- The worker answers the call. -/
theorem Linked.answered (h : Linked s d (.flight c k id leg)) (hserved : leg.IsServed) {n : ℕ}
    (hlength : s.parent.sent.length = n) {last : Bool}
    {reply reply' : Except (WorkerError F) (Val F)}
    (hlast : (last && reply.isOk) = Leg.isLast c reply) (hanswers : c.Answers reply)
    (hsame : SameReply c reply reply') {m m' : System F} (htwin : Twin none m m')
    (hclosed : c.isClose = true → m.worker.status = .closed) :
    Linked ({ s with consumed := n }.answered id last reply m)
      { d with system := m', current := none, history := d.history ++ [(c, reply')] }
      (.flight c k id (.writing reply)) := by
  have hf : Flight s d.history c k id leg := h.stands
  obtain ⟨hrunning, hreading⟩ := h.reading hserved
  have hnone : leg.reply = none ∧ leg.responses s.text id = [] ∧ leg.owed id = [id] := by
    cases leg with
    | sent | dispatching => exact ⟨rfl, rfl, rfl⟩
    | _ => exact hserved.elim
  obtain ⟨hnoreply, hresponses, howed⟩ := hnone
  refine ⟨htwin, rfl, ?_, h.pending, h.next, ⟨fun _ => h.up.runs hrunning, nofun, .inl hreading⟩,
    fun hc => hclosed hc.1, ?_⟩
  · have hchannel : Channel s d (leg.responses s.text id) := h.channel
    rw [hresponses] at hchannel
    exact hchannel.congr rfl rfl rfl rfl rfl rfl
  · refine hf.serve (.writing reply) rfl rfl rfl rfl ?_ rfl hlength ?_ ?_ howed.symm ?_
    · show HostStage.writing id (responseOf s.text reply) (last && reply.isOk) = _
      rw [hlast]
      rfl
    · intro stage locked hw
      cases leg with
      | sent | dispatching => exact hw
      | _ => exact hserved.elim
    · intro future ha
      cases leg with
      | sent | dispatching => exact ha
      | _ => exact hserved.elim
    · intro old hold hanswer
      rw [hnoreply] at hanswer
      obtain rfl : d.history = old := hanswer
      exact ⟨hanswers, reply', hsame, rfl⟩

/-- The worker in the process gets the call, and so does the worker alone. -/
theorem Linked.serve [PlainCbor F] {frame : Bytes} (h : Linked s d (.flight c k id (.sent frame)))
    {params : Dict F} (hparams : (Val.dict c.params).Reads (.dict params)) {n : ℕ}
    (hlength : s.parent.sent.length = n) :
    ∃ leg d', (leg = .dispatching ∨ ∃ reply, leg = .writing reply) ∧ d.step (.call c) = some d' ∧
      Linked ({ s with consumed := n }.serve id c.method params) d' (.flight c k id leg) := by
  have hf : Flight s d.history c k id (.sent frame) := h.stands
  have hcurrent : d.current = none := h.current
  unfold Link.serve
  by_cases hdict : c.HasDict
  · obtain ⟨c', hdispatch, hreads⟩ := dispatch_reads hparams hdict
    rw [hdispatch]
    have hclose : c'.isClose = c.isClose := hreads.isClose
    obtain ⟨r, m, hcall, hcall', hanswers, htwin, hclosed⟩ | ⟨m, m', hcall, hcall', htwin⟩ :=
      h.twin.call hreads hf.sendable
    · refine ⟨.writing r, { d with system := m, history := d.history ++ [(c, r)] }, .inr ⟨r, rfl⟩,
        ?_, ?_⟩
      · simp only [Direct.step, hcurrent, hcall']
      · simp only [hcall]
        have hlast : (c'.isClose && r.isOk) = Leg.isLast c r := by rw [hclose, Leg.isLast]
        exact hcurrent ▸ h.answered trivial hlength hlast hanswers (sameReply_self hdict r) htwin hclosed
    · refine ⟨.dispatching, { d with system := m', current := some c }, .inl rfl, ?_, ?_⟩
      · simp only [Direct.step, hcurrent, hcall']
      · simp only [hcall]
        obtain ⟨hrunning, hreading⟩ := h.reading trivial
        refine ⟨htwin, rfl, ?_, h.pending, h.next,
          ⟨fun _ => h.up.runs hrunning, nofun, .inl hreading⟩,
          fun hc => (nomatch hc.2), ?_⟩
        · exact h.channel.congr rfl rfl rfl rfl rfl rfl
        · refine hf.serve .dispatching rfl rfl rfl rfl ?_ rfl hlength (fun _ _ hw => hw)
            (fun _ ha => ha) rfl fun old _ hanswer => hanswer
          rw [hclose]
          rfl
  · have hdispatch := dispatch_refuses hparams hdict
    obtain ⟨e, hcall⟩ := System.call_refuses (s := d.system) hdict
    rw [hdispatch]
    refine ⟨.writing (.error c.mappingError), { d with history := d.history ++ [(c, Except.error e)] },
      .inr ⟨_, rfl⟩,
      ?_, ?_⟩
    · simp only [Direct.step, hcurrent, hcall]
    · have hopen : c.isClose = false := by
        cases c with
        | close => exact absurd trivial hdict
        | _ => rfl
      have hlast : (false && isOk (.error c.mappingError : Except (WorkerError F) (Val F))) =
          Leg.isLast c (.error c.mappingError) := by
        rw [Leg.isLast, hopen]
      have hsame : SameReply c (.error c.mappingError) (.error e) := .inr ⟨hdict, rfl⟩
      exact hcurrent ▸ h.answered trivial hlength hlast hopen hsame h.twin fun hc =>
        nomatch hc.symm.trans hopen

/-- The process reads a request. -/
theorem Linked.hostReads [PlainCbor F] [LawfulFloat F] (h : Linked s d spot)
    (hstep : s.hostReads = some s') :
    ∃ c k id frame leg d', spot = .flight c k id (.sent frame) ∧
      (leg = .dispatching ∨ ∃ reply, leg = .writing reply) ∧ d.step (.call c) = some d' ∧
      Linked s' d' (.flight c k id leg) := by
  unfold Link.hostReads at hstep
  split at hstep
  · rename_i frame hhost hframe
    obtain ⟨c, k, id, rfl, hlength⟩ := h.unread hframe hhost
    have hf : Flight s d.history c k id (.sent frame) := h.stands
    obtain ⟨hwell, hencode⟩ := hf.frame frame rfl
    obtain ⟨raw, params, hraw, hvalid, hparams⟩ :=
      Ipc.read_request hf.positive c.method_ne_nil hwell hencode
    simp only [hraw, Except.bind, hvalid, Option.some.injEq] at hstep
    subst hstep
    obtain ⟨leg, d', htaken, hd', hlinked⟩ := h.serve hparams hlength
    exact ⟨c, k, id, frame, leg, d', rfl, htaken, hd', hlinked⟩
  · -- the pipe is open as long as the process reads
    rename_i hhost hnone
    have hopen : s.parent.stdinOpen = true := by
      cases spot with
      | idle =>
        have hs : Idle s d.history := h.stands
        exact hs.live.stdinOpen
      | flight c k id leg =>
        have hs : Flight s d.history c k id leg := h.stands
        exact hs.live.stdinOpen
      | finished c k =>
        have hs : Over s d.history c k := h.stands
        exact hs.live.stdinOpen
      | stopping =>
        have hs : Stopping s d.history := h.stands
        exact nomatch hhost.symm.trans hs.host
      | shut =>
        have hs : Shut s d.history := h.stands
        exact nomatch hhost.symm.trans hs.host
    rw [if_pos hopen] at hstep
    cases hstep
  · cases hstep

omit [PyText F] [Cbor F] in
theorem wellFormed_responseOf {text : WorkerError F → Str} {reply : Except (WorkerError F) (Val F)}
    (h : c.Answers reply) : Ipc.wellFormedOutcome (responseOf text reply) = true := by
  cases reply with
  | error e => rfl
  | ok v =>
    have hv : if c.isClose then v = .none else
        ∃ u, v = .dict u ∧ (Val.dict u).wellFormed = true := h
    split_ifs at hv
    · subst hv
      rfl
    · obtain ⟨u, rfl, hu⟩ := hv
      exact hu

omit [PyText F] in
/-- The response is written. -/
theorem Linked.hostWrites (h : Linked s d spot) (hfits : s.fits .hostWrites = true)
    (hstep : s.hostWrites = some s') :
    ∃ c k id reply, spot = .flight c k id (.writing reply) ∧
      Linked s' d (.flight c k id (.answered reply)) := by
  unfold Link.hostWrites at hstep
  split at hstep
  · rename_i id outcome last hhost
    obtain ⟨c, k, reply, rfl, rfl, rfl⟩ := Spot.host_writing (h.host.symm.trans hhost)
    have hf : Flight s d.history c k id (.writing reply) := h.stands
    unfold fits at hfits
    simp only [hhost] at hfits
    split at hstep
    · rename_i frame hframe
      obtain rfl := Option.some.inj hstep
      obtain ⟨old, hold, hanswers, reply', hsame, hhistory⟩ := hf.history
      have hrunning : s.host ≠ .ended := by
        rw [hhost]
        exact nofun
      have hreading := h.up.reading hrunning
      refine ⟨c, k, id, reply, rfl, h.twin, h.current, ?_, h.pending, h.next,
        ⟨fun _ => h.up.runs hrunning, fun hended => ?_, .inl hreading⟩,
        fun hc => h.hasClosed hc, ?_⟩
      · exact h.channel.responds hf.positive (wellFormed_responseOf hanswers) hframe
      · have hlast : Leg.isLast c reply = true := by
          by_contra hno
          simp only [if_neg hno] at hended
          cases hended
        rw [isLast_eq hanswers] at hlast
        exact hf.live.closing.trans hlast
      · exact hf.serve (.answered reply) rfl rfl rfl rfl rfl rfl hf.unread (fun _ _ hw => hw)
          (fun _ ha => ha) rfl fun old _ hanswer => hanswer
    · rename_i e he
      rw [he] at hfits
      cases hfits
  · cases hstep

/-- The waiting call of the worker goes on. -/
theorem Linked.resume [PlainCbor F] (h : Linked s d spot) (hstep : s.resume = some s') :
    ∃ c k id reply d', spot = .flight c k id .dispatching ∧ d.step .resume = some d' ∧
      Linked s' d' (.flight c k id (.writing reply)) := by
  unfold Link.resume at hstep
  split at hstep
  · rename_i id last reply system hhost hreact
    obtain rfl := Option.some.inj hstep
    obtain ⟨c, k, rfl, rfl⟩ := Spot.host_dispatching (h.host.symm.trans hhost)
    have hf : Flight s d.history c k id .dispatching := h.stands
    obtain ⟨r, m, hx, hresume, hanswers, htwin, hclosed⟩ := h.twin.resume hreact
    obtain ⟨hr, rfl⟩ := Prod.mk.inj hx
    obtain rfl := Option.some.inj hr
    refine ⟨c, k, id, reply, { d with
      system, current := none, history := d.history ++ [(c, reply)] }, rfl, ?_, ?_⟩
    · have hcurrent : d.current = some c := h.current
      simp only [Direct.step, hcurrent, hresume]
    · have htwins : Twin (some c) s.system d.system := h.twin
      exact h.answered trivial hf.unread rfl hanswers (sameReply_self htwins.hasDict reply) htwin
        hclosed
  · cases hstep

end Request

/-! ## The caller -/

section Caller

variable [PyFloat F] [PyText F] [Cbor F] {s s' : Link F} {d : Direct F} {spot : Spot F} {c : Call F}

omit [PyText F] in
theorem call_rpc (hcurrent : s.current = none) (hc : c.isClose = false) :
    s.call c = some { s with
      parent := s.parent.rpc c.method c.params
      current := some (c, .rpc s.parent.rpcs.length) } := by
  unfold Link.call
  rw [hcurrent]
  cases c with
  | close => cases hc
  | _ => rfl

/-- The call is registered, and its frame waits for the pipe. -/
structure Opened (q q' : SubprocessWorker F) (c : Call F) (frame : Bytes) : Prop where
  rpcs : q'.rpcs = q.rpcs ++ [⟨some q.nextRequestId, c.method, .pending, .queued frame⟩]
  closed : q'.closed = q.closed
  readerError : q'.readerError = q.readerError
  stdinOpen : q'.stdinOpen = q.stdinOpen
  maxFrameBytes : q'.maxFrameBytes = q.maxFrameBytes
  sent : q'.sent = q.sent
  writeLocked : q'.writeLocked = q.writeLocked
  responses : q'.responses = q.responses
  events : q'.events = q.events
  alive : q'.alive = q.alive
  returncode : q'.returncode = q.returncode
  reading : q'.reading = q.reading
  nextRequestId : q'.nextRequestId = q.nextRequestId + 1
  closing : q'.closing = c.isClose
  closes : q'.closes = if c.isClose then [Closing.rpc q.rpcs.length] else []

omit [PyText F] in
theorem rpc_eq {q : SubprocessWorker F} (hclosed : q.closed = false)
    (hreadable : q.readerError = none)
    {method : Str} {params : Dict F} {frame : Bytes}
    (hframe :
      encodeFrame (requestEnvelope q.nextRequestId method params) q.maxFrameBytes = .ok frame) :
    q.rpc method params = { q.addRpc ⟨some q.nextRequestId, method, .pending, .queued frame⟩ with
      nextRequestId := q.nextRequestId + 1
      pending := q.pending.insert q.nextRequestId q.rpcs.length } := by
  unfold SubprocessWorker.rpc
  rw [if_neg (by simp [hclosed])]
  split
  · rename_i e he
    exact nomatch hreadable.symm.trans he
  · split
    · rename_i e he
      exact nomatch hframe.symm.trans he
    · rename_i frame' he
      obtain rfl := Except.ok.inj (hframe.symm.trans he)
      rfl

omit [PyText F] in
theorem opened_rpc {q : SubprocessWorker F} (hlive : Live q false) (hcloses : q.closes = [])
    (hc : c.isClose = false) {frame : Bytes}
    (hframe : encodeFrame (requestEnvelope q.nextRequestId c.method c.params) q.maxFrameBytes =
      .ok frame) : Opened q (q.rpc c.method c.params) c frame := by
  rw [rpc_eq hlive.closed hlive.readable hframe]
  refine ⟨rfl, rfl, rfl, rfl, rfl, rfl, rfl, rfl, rfl, rfl, rfl, rfl, rfl, ?_, ?_⟩
  · rw [hc]
    exact hlive.closing
  · rw [hc]
    exact hcloses

omit [PyText F] in
theorem opened_close {q : SubprocessWorker F} (hlive : Live q false) (hcloses : q.closes = [])
    (hcode : q.returncode = false) {frame : Bytes}
    (hframe : encodeFrame (requestEnvelope q.nextRequestId (py "close") ([] : Dict F))
      q.maxFrameBytes = .ok frame) : Opened q q.close .close frame := by
  have hq : q.close = { ({ q with closing := true }).rpc (py "close") [] with
      closes := q.closes ++ [Closing.rpc q.rpcs.length] } := by
    unfold SubprocessWorker.close
    rw [if_neg (by simp [hlive.closed]), if_pos ⟨hcode, by simp [hlive.readable]⟩]
  rw [hq, rpc_eq (q := { q with closing := true }) hlive.closed hlive.readable hframe, hcloses]
  exact ⟨rfl, rfl, rfl, rfl, rfl, rfl, rfl, rfl, rfl, rfl, rfl, rfl, rfl, rfl, rfl⟩

omit [PyText F] in
theorem sendable_of_encodeFrame [PlainCbor F] {id : ℕ} {L : ℤ} {frame : Bytes}
    (h : encodeFrame (requestEnvelope id c.method c.params) L = .ok frame) : c.Sendable := by
  have hparams : Ipc.Sendable (Val.dict c.params) :=
    (Ipc.sendable_of_encodeFrame h).field (p := ("params", .dict c.params)) (by simp)
  cases c with
  | preparePhase v =>
    have hargument : Ipc.Sendable (dictOf [("phase_plan", v)]) := hparams
    exact hargument.field (p := ("phase_plan", v)) (by simp)
  | startPhase v =>
    have hargument : Ipc.Sendable (dictOf [("monotonic_deadline_us", v)]) := hparams
    exact hargument.field (p := ("monotonic_deadline_us", v)) (by simp)
  | stop v =>
    have hargument : Ipc.Sendable (dictOf [("fault_context", v)]) := hparams
    exact hargument.field (p := ("fault_context", v)) (by simp)
  | _ => trivial

omit [PyText F] in
/-- A call that is made between the calls. -/
theorem Linked.opens [PlainCbor F] (h : Linked s d .idle) {q : SubprocessWorker F} {frame : Bytes}
    (hq : Opened s.parent q c frame) (hpending : SubprocessWorker.Pending q)
    (hwell : (Val.dict c.params).wellFormed = true)
    (hframe : encodeFrame (requestEnvelope s.parent.nextRequestId c.method c.params)
      s.parent.maxFrameBytes = .ok frame) :
    Linked { s with
        parent := q
        current := some (c, if c.isClose then .close 0 else .rpc s.parent.rpcs.length) } d
      (.flight c s.parent.rpcs.length s.parent.nextRequestId (.queued frame)) := by
  have hi : Idle s d.history := h.stands
  have hrunning : s.host ≠ .ended := by
    rw [hi.host]
    exact nofun
  obtain ⟨halive, hcode⟩ := h.up.runs hrunning
  have hreading := h.up.reading hrunning
  have hlive : Live q c.isClose := ⟨hq.closed.trans hi.live.closed,
    hq.readerError.trans hi.live.readable, hq.closing, hq.stdinOpen.trans hi.live.stdinOpen⟩
  refine ⟨h.twin, h.current, h.channel.congr hq.maxFrameBytes rfl rfl rfl rfl hq.events, hpending,
    ?_, ⟨fun _ => ⟨hq.alive.trans halive, hq.returncode.trans hcode⟩, fun he => absurd he hrunning,
      .inl (hq.reading.trans hreading)⟩, fun hc => (nomatch hc.2),
    ⟨hlive, sendable_of_encodeFrame hframe, fun frame' hm => ?_, h.next, hi.host, ?_, rfl,
      ⟨⟨some s.parent.nextRequestId, c.method, .pending, .queued frame⟩, ?_, rfl, ⟨rfl, ?_⟩, rfl⟩,
      fun j r hr hj => ?_, hq.closes, ?_, d.history, hi.history, rfl⟩⟩
  · show 0 < q.nextRequestId
    rw [hq.nextRequestId]
    exact Nat.succ_pos _
  · obtain rfl : frame = frame' := Option.some.inj hm
    refine ⟨hwell, ?_⟩
    show encodeFrame _ q.maxFrameBytes = _
    rw [hq.maxFrameBytes]
    exact hframe
  · show q.sent.length = _
    rw [hq.sent]
    exact hi.unread
  · show q.rpcs[_]? = _
    rw [hq.rpcs, List.getElem?_concat_length]
  · exact hq.writeLocked.trans hi.unlocked
  · have hr : q.rpcs[j]? = some r := hr
    rw [hq.rpcs] at hr
    obtain hr | ⟨rfl, -⟩ := SubprocessWorker.getElem?_addRpc.1 hr
    · exact hi.rpcs r (List.mem_of_getElem? hr)
    · exact absurd rfl hj
  · show q.responses.map Prod.fst ++ [_] = q.rpcs.filterMap Rpc.requestId
    have hresponded : s.parent.responses.map Prod.fst ++ [] =
        s.parent.rpcs.filterMap Rpc.requestId := hi.responded
    rw [hq.responses, hq.rpcs, List.filterMap_append, ← hresponded, List.append_nil]
    rfl

/-- The worker alone refuses a call behind `close`. -/
theorem Linked.refuses (h : Linked s d .shut) (c : Call F) :
    d.step (.call c) = some { d with
      history := d.history ++ [(c, if c.isClose then Except.ok .none else .error closedError)] } := by
  have hclosed : s.system.worker.status = .closed := h.hasClosed trivial
  have hcurrent : d.current = none := h.current
  have htwin : Twin none s.system d.system := h.twin
  rw [← htwin.eq] at hclosed
  simp only [Direct.step, hcurrent, System.call_closed hclosed]

omit [PyText F] in
/-- `close` has ended: the next call is refused. -/
theorem Linked.shutRpc (h : Linked s d .shut) (hcurrent : s.current = none) :
    Linked { s with
        parent := s.parent.rpc c.method c.params, current := some (c, .rpc s.parent.rpcs.length) }
      { d with history := d.history ++ [(c, Except.error closedError)] } .shut := by
  have hs : Shut s d.history := h.stands
  have hq : s.parent.rpc c.method c.params =
      s.parent.addRpc ⟨none, c.method, .cancelled, .failed (.refused closedError)⟩ :=
        if_pos hs.closed
  have hpending := h.pending.rpc c.method c.params
  obtain ⟨old, hold, hanswers⟩ := hs.history
  rw [hcurrent] at hanswers
  obtain rfl : d.history = old := hanswers
  rw [hq] at hpending ⊢
  refine ⟨h.twin, h.current, h.channel.congr rfl rfl rfl rfl rfl rfl, hpending, h.next,
    ⟨fun hne => absurd hs.host hne, h.up.closing, h.up.reads⟩, h.hasClosed,
    ⟨hs.closed, hs.host, fun r hr => ?_, hs.closes, ?_, d.history, hold, ?_⟩⟩
  · obtain hr | hr := List.mem_append.1 hr
    · exact hs.rpcs r hr
    · obtain rfl := List.mem_singleton.1 hr
      trivial
  · have hresponded : s.parent.responses.map Prod.fst ++ [] =
        s.parent.rpcs.filterMap Rpc.requestId := hs.responded
    let refused : Rpc F := ⟨none, c.method, .cancelled, .failed (.refused closedError)⟩
    show s.parent.responses.map Prod.fst ++ [] =
      (s.parent.rpcs ++ [refused]).filterMap Rpc.requestId
    rw [hresponded, List.filterMap_append]
    exact (List.append_nil _).symm
  · refine ⟨.error closedError, rfl, ?_, rfl⟩
    let refused : Rpc F := ⟨none, c.method, .cancelled, .failed (.refused closedError)⟩
    show (s.parent.rpcs ++ [refused])[s.parent.rpcs.length]?.map Rpc.stage = _
    rw [List.getElem?_concat_length]
    rfl

omit [PyText F] in
/-- Behind `close` the caller gets what the worker alone answered. -/
theorem Linked.shutAnswer (h : Linked s d .shut)
    {old : List (Call F × Except (WorkerError F) (Val F))}
    (hold : List.Forall₂ (SameResult s.text) s.history old) {outcome : Except (Failure F) (Val F)}
    {reply : Except (WorkerError F) (Val F)} (hresult : SameResult s.text (c, outcome) (c, reply)) :
    Linked { s with current := none, history := s.history ++ [(c, outcome)] }
      { d with history := old ++ [(c, reply)] } .shut := by
  have hs : Shut s d.history := h.stands
  exact ⟨h.twin, h.current, h.channel.congr rfl rfl rfl rfl rfl rfl, h.pending, h.next,
    ⟨h.up.runs, h.up.closing, h.up.reads⟩, h.hasClosed,
    ⟨hs.closed, hs.host, hs.rpcs, hs.closes, hs.responded, old ++ [(c, reply)],
      List.rel_append hold (.cons hresult .nil), rfl⟩⟩

omit [PyText F] in
theorem current_of_call (hstep : s.call c = some s') : s.current = none := by
  unfold Link.call at hstep
  split at hstep
  · cases hstep
  · assumption

omit [PyText F] in
/-- A call between the calls goes to the process. -/
theorem Linked.callIdle [PlainCbor F] (h : Linked s d .idle) (hfits : s.fits (.call c) = true)
    (hstep : s.call c = some s') : ∃ spot', Linked s' d spot' := by
  have hcurrent := current_of_call hstep
  have hi : Idle s d.history := h.stands
  obtain ⟨hwell, hencodes⟩ := Bool.and_eq_true_iff.1 (show (_ && _) = true from hfits)
  rw [hi.live.closed, Bool.false_or] at hencodes
  obtain ⟨frame, hframe⟩ := exists_of_isOk hencodes
  cases hc : c.isClose with
  | false =>
    rw [call_rpc hcurrent hc] at hstep
    obtain rfl := Option.some.inj hstep
    have hopens := h.opens (opened_rpc hi.live hi.closes hc hframe)
      (h.pending.rpc _ _) hwell hframe
    rw [hc] at hopens
    exact ⟨_, hopens⟩
  | true =>
    cases c with
    | close =>
      have hrunning : s.host ≠ .ended := by
        rw [hi.host]
        exact nofun
      have hopens := h.opens (opened_close hi.live hi.closes (h.up.runs hrunning).2 hframe)
        h.pending.close hwell hframe
      simp only [Link.call, hcurrent, hi.live.closed, hi.closes, Bool.false_eq_true, if_false,
        List.length_nil, Option.some.injEq] at hstep
      subst hstep
      exact ⟨_, hopens⟩
    | _ => cases hc

/-- Behind `close` the worker alone gets the call at once. -/
theorem Linked.callShut (h : Linked s d .shut) (hstep : s.call c = some s') :
    ∃ d', d.step (.call c) = some d' ∧ Linked s' d' .shut := by
  have hcurrent := current_of_call hstep
  have hs : Shut s d.history := h.stands
  have hrefuses := h.refuses c
  cases hc : c.isClose with
  | false =>
    rw [call_rpc hcurrent hc] at hstep
    obtain rfl := Option.some.inj hstep
    simp only [hc, Bool.false_eq_true, if_false] at hrefuses
    exact ⟨_, hrefuses, h.shutRpc hcurrent⟩
  | true =>
    cases c with
    | close =>
      simp only [Link.call, hcurrent, hs.closed, if_true, Option.some.injEq] at hstep
      subst hstep
      obtain ⟨old, hold, hanswers⟩ := hs.history
      rw [hcurrent] at hanswers
      obtain rfl : d.history = old := hanswers
      have hresult : SameResult s.text (.close, .ok .none) (.close, .ok .none) := ⟨rfl, rfl⟩
      rw [if_pos hc] at hrefuses
      exact ⟨_, hrefuses, h.shutAnswer hold hresult⟩
    | _ => cases hc

/-- A call is made. -/
theorem Linked.call [PlainCbor F] (h : Linked s d spot) (hfits : s.fits (.call c) = true)
    (hstep : s.call c = some s') :
    ∃ spot' d', (d' = d ∨ d.step (.call c) = some d') ∧ Linked s' d' spot' := by
  have hcurrent := current_of_call hstep
  cases spot with
  | idle =>
    obtain ⟨spot', hlinked⟩ := h.callIdle hfits hstep
    exact ⟨spot', d, .inl rfl, hlinked⟩
  | flight c₁ k id leg =>
    have hf : Flight s d.history c₁ k id leg := h.stands
    exact nomatch hcurrent.symm.trans hf.current
  | finished c₁ k =>
    have ho : Over s d.history c₁ k := h.stands
    exact nomatch hcurrent.symm.trans ho.current
  | stopping =>
    have hs : Stopping s d.history := h.stands
    exact nomatch hcurrent.symm.trans hs.current
  | shut =>
    obtain ⟨d', hrefuses, hlinked⟩ := h.callShut hstep
    exact ⟨.shut, d', .inr hrefuses, hlinked⟩

/-- What the caller gets of a call that ended so. -/
def Gives : RpcStage F → Except (Failure F) (Val F) → Prop
  | .returned result, outcome => outcome = .ok (.dict result)
  | .failed f, outcome => outcome = .error f
  | _, _ => False

omit [PyFloat F] [PyText F] [Cbor F] in
theorem Gives.isFinal {stage : RpcStage F} {outcome : Except (Failure F) (Val F)}
    (h : Gives stage outcome) : IsFinal stage := by
  cases stage <;> trivial

omit [PyText F] [Cbor F] in
theorem EndsAs.sameResult {text : WorkerError F → Str} (hc : c.isClose = false)
    {stage : RpcStage F} {reply : Except (WorkerError F) (Val F)}
    (h : EndsAs text c (some stage) reply) {outcome : Except (Failure F) (Val F)}
    (hgives : Gives stage outcome) : SameResult text (c, outcome) (c, reply) := by
  cases stage with
  | returned result =>
    obtain rfl := hgives
    cases reply with
    | ok v =>
      have hv : if c.isClose then v = .none else Val.eq v (.dict result) = true := h
      rw [if_neg (by simp [hc])] at hv
      exact ⟨rfl, hv⟩
    | error e => exact h.elim
  | failed f =>
    obtain rfl := hgives
    cases reply with
    | ok v => exact h.elim
    | error e => exact ⟨rfl, h.2⟩
  | _ => exact hgives.elim

omit [PyFloat F] [PyText F] [Cbor F] in
theorem finish_rpc {k : ℕ} (hcurrent : s.current = some (c, .rpc k)) (hstep : s.finish = some s') :
    ∃ stage outcome, s.parent.rpcs[k]?.map Rpc.stage = some stage ∧
      s' = { s with current := none, history := s.history ++ [(c, outcome)] } ∧
      Gives stage outcome := by
  unfold Link.finish at hstep
  simp only [hcurrent] at hstep
  split at hstep
  · rename_i result hstage
    exact ⟨_, _, hstage, (Option.some.inj hstep).symm, rfl⟩
  · rename_i f hstage
    exact ⟨_, _, hstage, (Option.some.inj hstep).symm, rfl⟩
  · cases hstep

omit [PyFloat F] [PyText F] [Cbor F] in
theorem finish_close {i : ℕ} (hcurrent : s.current = some (c, .close i))
    (hstep : s.finish = some s') :
    s.parent.closes[i]? = some .done ∧
      s' = { s with current := none, history := s.history ++ [(c, Except.ok .none)] } := by
  unfold Link.finish at hstep
  simp only [hcurrent] at hstep
  split_ifs at hstep with hdone
  exact ⟨hdone, (Option.some.inj hstep).symm⟩

omit [PyFloat F] [PyText F] [Cbor F] in
theorem finish_idle (hcurrent : s.current = none) : s.finish = none := by
  unfold Link.finish
  rw [hcurrent]

omit [PyText F] in
/-- A call in flight does not end. -/
theorem Flight.not_finish {answers : List (Call F × Except (WorkerError F) (Val F))} {k id : ℕ}
    {leg : Leg F} (h : Flight s answers c k id leg) : s.finish ≠ some s' := by
  intro hstep
  have hcurrent := h.current
  split_ifs at hcurrent with hc
  · obtain ⟨hdone, -⟩ := finish_close hcurrent hstep
    rw [h.closes, if_pos hc] at hdone
    cases hdone
  · obtain ⟨r, hr, -, hwrites, -⟩ := h.rpc
    obtain ⟨stage, outcome, hstage, -, hgives⟩ := finish_rpc hcurrent hstep
    rw [hr] at hstage
    obtain rfl : r.stage = stage := Option.some.inj hstage
    exact hwrites.not_isFinal hgives.isFinal

omit [PyText F] in
/-- The caller gets what `_rpc` ended with; a `close` goes on. -/
theorem Linked.finishOver {k : ℕ} (h : Linked s d (.finished c k)) (hstep : s.finish = some s') :
    Linked s' d .idle := by
  have ho : Over s d.history c k := h.stands
  have hcurrent := ho.current
  have hlive := ho.live
  have hhost := ho.host
  have hcloses := ho.closes
  split_ifs at hcurrent hcloses with hc
  · obtain ⟨hdone, -⟩ := finish_close hcurrent hstep
    rw [hcloses] at hdone
    cases hdone
  · have hopen : c.isClose = false := Bool.eq_false_iff.2 hc
    rw [hopen] at hlive hhost
    obtain ⟨old, reply, hold, hanswers, hends⟩ := ho.history
    obtain ⟨stage, outcome, hstage, rfl, hgives⟩ := finish_rpc hcurrent hstep
    rw [hstage] at hends
    refine ⟨h.twin, h.current, h.channel.congr rfl rfl rfl rfl rfl rfl, h.pending, h.next,
      ⟨h.up.runs, h.up.closing, h.up.reads⟩, fun hc => hc.elim,
      ⟨hlive, hhost, ho.unread, rfl, ho.rpcs, ho.unlocked, hcloses, ho.responded, ?_⟩⟩
    rw [hanswers]
    exact List.rel_append hold (.cons (hends.sameResult hopen hgives) .nil)

omit [PyText F] in
theorem Linked.finishShut (h : Linked s d .shut) (hstep : s.finish = some s') :
    Linked s' d .shut := by
  have hs : Shut s d.history := h.stands
  obtain ⟨old, hold, hanswers⟩ := hs.history
  cases hcurrent : s.current with
  | none => exact nomatch (finish_idle hcurrent).symm.trans hstep
  | some x =>
    obtain ⟨c, slot⟩ := x
    rw [hcurrent] at hanswers
    obtain ⟨reply, hd, hslot⟩ := hanswers
    have hshut : ∀ outcome, SameResult s.text (c, outcome) (c, reply) →
        Linked { s with current := none, history := s.history ++ [(c, outcome)] } d .shut := by
      intro outcome hresult
      have hanswer := h.shutAnswer hold hresult
      rw [← hd] at hanswer
      exact hanswer
    cases slot with
    | rpc k =>
      obtain ⟨hf, rfl⟩ := hslot
      obtain ⟨stage, outcome, hstage, rfl, hgives⟩ := finish_rpc hcurrent hstep
      obtain rfl := Option.some.inj (hf.symm.trans hstage)
      obtain rfl : outcome = .error (.refused closedError) := hgives
      exact hshut _ ⟨rfl, .inl rfl⟩
    | close i =>
      obtain ⟨-, rfl⟩ := hslot
      obtain ⟨-, rfl⟩ := finish_close hcurrent hstep
      exact hshut _ ⟨rfl, rfl⟩

omit [PyText F] in
/-- The caller's call has ended. -/
theorem Linked.finish (h : Linked s d spot) (hstep : s.finish = some s') :
    ∃ spot', Linked s' d spot' := by
  cases spot with
  | idle =>
    have hi : Idle s d.history := h.stands
    exact nomatch (finish_idle hi.current).symm.trans hstep
  | flight c k id leg =>
    have hf : Flight s d.history c k id leg := h.stands
    exact absurd hstep hf.not_finish
  | finished c k => exact ⟨.idle, h.finishOver hstep⟩
  | stopping =>
    have hs : Stopping s d.history := h.stands
    obtain ⟨hdone, -⟩ := finish_close hs.current hstep
    obtain hc | hc := hs.closes <;> rw [hc] at hdone <;> cases hdone
  | shut => exact ⟨.shut, h.finishShut hstep⟩

/-! ### Closing -/

omit [PyFloat F] [PyText F] [Cbor F] in
theorem map_finishClose {β : Type} (q : SubprocessWorker F) (i : ℕ) (f : Rpc F → β)
    (hf : ∀ (r : Rpc F) (future : Future F), f { r with future } = f r) :
    (q.finishClose i).rpcs.map f = q.rpcs.map f := by
  refine List.ext_getElem? fun j => ?_
  show ((q.rpcs.mapIdx fun k r => if k ∈ q.pending.values ∧ r.future.isPending = true then
    { r with future := .exception closedError } else r).map f)[j]? = _
  rw [List.getElem?_map, List.getElem?_map, List.getElem?_mapIdx, Option.map_map]
  congr 1
  funext r
  simp only [Function.comp_apply]
  split_ifs
  · exact hf r _
  · rfl

omit [PyText F] in
/-- `close` ends. -/
theorem Linked.finishClose (h : Linked s d .stopping)
    (hpending : SubprocessWorker.Pending (s.parent.finishClose 0)) :
    Linked (s.withParent (s.parent.finishClose 0)) d .shut := by
  have hs : Stopping s d.history := h.stands
  obtain ⟨old, hold, hanswers⟩ := hs.history
  refine ⟨h.twin, h.current, h.channel.congr rfl rfl rfl rfl rfl rfl, hpending, h.next,
    ⟨h.up.runs, h.up.closing, h.up.reads⟩, h.hasClosed, ⟨rfl, hs.host, ?_, ?_, ?_, old, hold, ?_⟩⟩
  · have hstages := map_finishClose s.parent 0 Rpc.stage fun _ _ => rfl
    have hfinal : ∀ stage ∈ s.parent.rpcs.map Rpc.stage, IsFinal stage := by
      rw [List.forall_mem_map]
      exact hs.rpcs
    rw [← hstages, List.forall_mem_map] at hfinal
    exact hfinal
  · show s.parent.closes.modify 0 (fun _ => Closing.done) = [.done]
    obtain hc | hc := hs.closes <;> rw [hc] <;> rfl
  · have hresponded : s.parent.responses.map Prod.fst ++ [] =
        s.parent.rpcs.filterMap Rpc.requestId := hs.responded
    show s.parent.responses.map Prod.fst ++ [] =
      (s.parent.finishClose 0).rpcs.filterMap Rpc.requestId
    rw [hresponded, filterMap_requestId, filterMap_requestId,
      map_finishClose s.parent 0 Rpc.requestId fun _ _ => rfl]
  · simp only [withParent, hs.current]
    exact ⟨_, hanswers, trivial, rfl⟩

omit [PyText F] [Cbor F] in
/-- A `close` that ended returned. -/
theorem EndsAs.of_close {text : WorkerError F → Str} (hc : c.isClose = true)
    {stage : Option (RpcStage F)} {reply : Except (WorkerError F) (Val F)}
    (h : EndsAs text c stage reply) :
    ∃ result, stage = some (.returned result) ∧ reply = .ok .none := by
  cases stage with
  | none => exact h.elim
  | some stage =>
    cases stage with
    | returned result =>
      cases reply with
      | error e => exact h.elim
      | ok v =>
        have hv : if c.isClose then v = .none else Val.eq v (.dict result) = true := h
        rw [if_pos hc] at hv
        exact ⟨result, rfl, congrArg _ hv⟩
    | failed f =>
      cases reply with
      | ok v => exact h.elim
      | error e => exact nomatch hc.symm.trans h.1
    | _ => cases reply <;> exact h.elim

/-- The process has answered `close`. -/
theorem Linked.stops {k : ℕ} (h : Linked s d (.finished c k)) (hc : c.isClose = true) :
    ∃ s', s.step (.closeNext 0) = some s' ∧ Linked s' d .stopping := by
  have ho : Over s d.history c k := h.stands
  have hcloses := ho.closes
  have hhost := ho.host
  have hcurrent := ho.current
  rw [if_pos hc] at hcloses hcurrent
  rw [hc] at hhost
  obtain ⟨old, reply, hold, hanswers, hends⟩ := ho.history
  obtain ⟨result, hreturned, rfl⟩ := hends.of_close hc
  have hq : s.parent.step (.closeNext 0) =
      some ({ s.parent with stdinOpen := false }.setClosing 0 .stdin) := by
    simp only [SubprocessWorker.step, hcloses, List.getElem?_cons_zero, Option.bind_some,
      SubprocessWorker.closeNext, hreturned]
  refine ⟨s.withParent ({ s.parent with stdinOpen := false }.setClosing 0 .stdin), ?_, ?_⟩
  · show (s.parent.step (.closeNext 0)).map s.withParent = _
    rw [hq]
    rfl
  · cases c with
    | close =>
      refine ⟨h.twin, h.current, h.channel.congr rfl rfl rfl rfl rfl rfl, h.pending.step hq,
        h.next, ⟨h.up.runs, h.up.closing, h.up.reads⟩, fun _ => h.hasClosed hc,
        ⟨ho.live.closed, hhost, hcurrent, ho.rpcs, .inl ?_, ho.responded, old, hold, hanswers⟩⟩
      show s.parent.closes.modify 0 (fun _ => Closing.stdin) = [.stdin]
      rw [hcloses]
      rfl
    | _ => cases hc

/-- The next await of `close` returns. -/
theorem Linked.closeNext (h : Linked s d spot) {i : ℕ} (hstep : s.step (.closeNext i) = some s') :
    ∃ spot', Linked s' d spot' := by
  obtain ⟨q, hq, rfl⟩ := Option.map_eq_some_iff.1 hstep
  have hpending := h.pending.step hq
  obtain ⟨stage, hstage, hq⟩ := Option.bind_eq_some_iff.1 hq
  have honly : ∀ x, s.parent.closes = [x] → i = 0 ∧ stage = x := by
    intro x hx
    rw [hx, List.getElem?_singleton] at hstage
    split_ifs at hstage with hi
    exact ⟨hi, (Option.some.inj hstage).symm⟩
  cases spot with
  | idle =>
    have hi : Idle s d.history := h.stands
    rw [hi.closes] at hstage
    cases hstage
  | flight c k id leg =>
    have hf : Flight s d.history c k id leg := h.stands
    have hcloses := hf.closes
    split_ifs at hcloses with hc
    · obtain ⟨rfl, rfl⟩ := honly _ hcloses
      obtain ⟨r, hr, -, hwrites, -⟩ := hf.rpc
      simp only [SubprocessWorker.closeNext, hr, Option.map_some] at hq
      cases leg with
      | queued frame =>
        rw [hwrites.1] at hq
        cases hq
      | _ => obtain ⟨he, -⟩ | ⟨he, -⟩ := hwrites <;> rw [he] at hq <;> cases hq
    · rw [hcloses] at hstage
      cases hstage
  | finished c k =>
    have ho : Over s d.history c k := h.stands
    have hcloses := ho.closes
    split_ifs at hcloses with hc
    · obtain ⟨rfl, -⟩ := honly _ hcloses
      obtain ⟨s₁, hs₁, hlinked⟩ := h.stops hc
      obtain ⟨q₁, hq₁, rfl⟩ := Option.map_eq_some_iff.1 hs₁
      have hq₂ : s.parent.step (.closeNext 0) = some q :=
        Option.bind_eq_some_iff.2 ⟨stage, hstage, hq⟩
      obtain rfl := Option.some.inj (hq₁.symm.trans hq₂)
      exact ⟨.stopping, hlinked⟩
    · rw [hcloses] at hstage
      cases hstage
  | stopping =>
    have hs : Stopping s d.history := h.stands
    obtain hcloses | hcloses := hs.closes
    · obtain ⟨rfl, rfl⟩ := honly _ hcloses
      simp only [SubprocessWorker.closeNext] at hq
      split_ifs at hq with hcode
      · obtain rfl := Option.some.inj hq
        exact ⟨.shut, h.finishClose hpending⟩
      · obtain rfl := Option.some.inj hq
        refine ⟨.stopping, h.twin, h.current, h.channel.congr rfl rfl rfl rfl rfl rfl, hpending,
          h.next, ⟨h.up.runs, h.up.closing, h.up.reads⟩, h.hasClosed,
          ⟨hs.closed, hs.host, hs.current, hs.rpcs, .inr ?_, hs.responded, hs.history⟩⟩
        show s.parent.closes.modify 0 (fun _ => Closing.process) = [.process]
        rw [hcloses]
        rfl
    · obtain ⟨rfl, rfl⟩ := honly _ hcloses
      simp only [SubprocessWorker.closeNext] at hq
      split_ifs at hq with hcode
      obtain rfl := Option.some.inj hq
      exact ⟨.shut, h.finishClose hpending⟩
  | shut =>
    have hs : Shut s d.history := h.stands
    obtain ⟨rfl, rfl⟩ := honly _ hs.closes
    cases hq

end Caller

end Link

end RemoteRobot.Worker
