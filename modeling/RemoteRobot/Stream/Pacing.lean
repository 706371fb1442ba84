import RemoteRobot.Stream.Client

/-!
# When a streamed program keeps up

What the server has is what the client sent: the points of its first chunks.  Where every chunk
buffered before the start ends inside the horizon, and no tick comes to the end of a chunk before
the next one was due, no message is refused for its time and the buffer never runs dry.  Neither
holds of every program, for the client counts in whole chunks.
-/

namespace RemoteRobot.Stream

open Py Except

variable {F : Type}

namespace Upload

variable [PyFloat F] [FloatRepr F] [Sha256] {u : Upload F}

/-! ## Chunks -/

theorem two_le_length (u : Upload F) : 2 ≤ u.points.length := (validatePoints_eq_ok u.load).1

theorem lt_count {j : ℕ} : j < u.count ↔ j * u.chunkPoints < u.points.length := by
  have hpos := u.chunkPoints_mem.1
  unfold count
  rw [Nat.lt_iff_add_one_le, Nat.le_div_iff_mul_le hpos, Nat.add_mul, Nat.one_mul]
  omega

theorem count_pos (u : Upload F) : 0 < u.count := by
  rw [lt_count, Nat.zero_mul]
  have := u.two_le_length
  omega

theorem take_append_chunk (u : Upload F) (j : ℕ) :
    u.points.take (j * u.chunkPoints) ++ u.chunk j = u.points.take ((j + 1) * u.chunkPoints) := by
  rw [Nat.add_mul, Nat.one_mul, List.take_add]
  rfl

/-- The place of the last point of a chunk. -/
def lastIndex (u : Upload F) (j : ℕ) : ℕ := min ((j + 1) * u.chunkPoints) u.points.length - 1

theorem lastIndex_lt (u : Upload F) (j : ℕ) : u.lastIndex j < u.points.length := by
  have := u.two_le_length
  unfold lastIndex
  omega

theorem lastIndex_lt_lastIndex {i j : ℕ} (hij : i < j) (hj : j < u.count) :
    u.lastIndex i < u.lastIndex j := by
  have hmul : (i + 1) * u.chunkPoints ≤ j * u.chunkPoints := Nat.mul_le_mul_right _ hij
  have hpos : 1 * 1 ≤ (i + 1) * u.chunkPoints := Nat.mul_le_mul (Nat.le_add_left 1 i)
    u.chunkPoints_mem.1
  have hone := u.chunkPoints_mem.1
  rw [lt_count] at hj
  unfold lastIndex
  rw [Nat.add_mul j, Nat.one_mul]
  omega

/-- The last of the points up to the end of a chunk. -/
theorem getLast?_take (u : Upload F) (j : ℕ) :
    (u.points.take ((j + 1) * u.chunkPoints)).getLast? = u.points[u.lastIndex j]? := by
  have hpos : 1 * 1 ≤ (j + 1) * u.chunkPoints := Nat.mul_le_mul (Nat.le_add_left 1 j)
    u.chunkPoints_mem.1
  have hlen := u.two_le_length
  rw [List.getLast?_eq_getElem?, List.length_take, List.getElem?_take, if_pos (by omega)]
  rfl

theorem chunk_ne_nil {j : ℕ} (hj : j < u.count) : u.chunk j ≠ [] := by
  have hpos := u.chunkPoints_mem.1
  rw [lt_count] at hj
  unfold chunk
  rw [Ne, List.take_eq_nil_iff, List.drop_eq_nil_iff]
  omega

theorem endUs_eq {j : ℕ} (hj : j < u.count) :
    u.endUs j = (u.points[u.lastIndex j]?.map TrajectoryPoint.tUs).getD 0 := by
  unfold endUs
  rw [← getLast?_take, ← take_append_chunk, List.getLast?_append_of_ne_nil _ (chunk_ne_nil hj)]

/-- The times of a program increase. -/
theorem tUs_lt {i j : ℕ} (hij : i < j) (hj : j < u.points.length) :
    (u.points.get ⟨i, hij.trans hj⟩).tUs < u.points[j].tUs := by
  have hchain := (validatePoints_eq_ok u.load).2.2
  have hi : i + 1 < u.points.length := by omega
  have hseg := SafetyPolicy.minSegment_of_validate (List.isChain_iff_getElem.1 hchain i hi)
  have hle := ProgramRun.tUs_le_of_chain hchain (show i + 1 ≤ j from hij)
    (List.getElem?_eq_getElem hi) (List.getElem?_eq_getElem hj)
  have hpos : (0 : ℤ) < ((SafetyPolicy.default : SafetyPolicy F).minSegmentUs : ℤ) :=
    show (0 : ℤ) < 100000 by decide
  have hlt : u.points[i].tUs < u.points[j].tUs := by omega
  exact hlt

theorem endUs_lt {i j : ℕ} (hij : i < j) (hj : j < u.count) : u.endUs i < u.endUs j := by
  rw [endUs_eq hj, endUs_eq (hij.trans hj), List.getElem?_eq_getElem (u.lastIndex_lt i),
    List.getElem?_eq_getElem (u.lastIndex_lt j)]
  exact tUs_lt (lastIndex_lt_lastIndex hij hj) (u.lastIndex_lt j)

theorem lastUs_eq (u : Upload F) :
    u.lastUs = (u.points.get ⟨u.points.length - 1, by have := u.two_le_length; omega⟩).tUs := by
  unfold lastUs
  rw [List.getLast?_eq_getElem?, List.getElem?_eq_getElem]
  rfl

theorem first_tUs (u : Upload F) :
    (u.points.get ⟨0, by have := u.two_le_length; omega⟩).tUs = 0 := by
  refine (validatePoints_eq_ok u.load).2.1 _ ?_
  rw [List.head?_eq_getElem?, List.getElem?_eq_getElem]
  rfl

theorem lastUs_pos (u : Upload F) : 0 < u.lastUs := by
  have hlen := u.two_le_length
  rw [lastUs_eq, ← u.first_tUs]
  exact tUs_lt (by omega) (by omega)

theorem endUs_le_lastUs {j : ℕ} (hj : j < u.count) : u.endUs j ≤ u.lastUs := by
  have hlt := u.lastIndex_lt j
  rw [endUs_eq hj, List.getElem?_eq_getElem hlt, lastUs_eq]
  show u.points[u.lastIndex j].tUs ≤ _
  by_cases he : u.lastIndex j = u.points.length - 1
  · simp only [he]
    exact le_rfl
  · exact (tUs_lt (by omega) (by omega)).le

/-- The last chunk ends with the program. -/
theorem endUs_final {j : ℕ} (hj : j + 1 = u.count) : u.endUs j = u.lastUs := by
  have hlast : ¬(j + 1) * u.chunkPoints < u.points.length := by
    rw [← lt_count]
    omega
  have hindex : u.lastIndex j = u.points.length - 1 := by
    unfold lastIndex
    omega
  rw [endUs_eq (by omega), hindex]
  unfold lastUs
  rw [List.getLast?_eq_getElem?]

theorem prebufferUs_pos (u : Upload F) : 0 < u.prebufferUs := by
  have htarget := u.target_mem.1
  have hlast := u.lastUs_pos
  unfold prebufferUs
  omega

/-! ## The server's copy -/

variable {s s' : Streaming F}

/-- The server has the chunks the client has sent, and no receipt of another. -/
structure Synced (u : Upload F) (s : Streaming F) : Prop where
  count : s.nextChunk ≤ u.count
  points : s.run.points = u.points.take (s.nextChunk * u.chunkPoints)
  fresh : ∀ k : ℕ, s.nextChunk ≤ k → s.run.chunkReceipts.get k = none
  final : s.run.finalReceived = decide (s.nextChunk = u.count)

theorem Synced.acceptedUntilUs {j : ℕ} (h : u.Synced s) (hj : s.nextChunk = j + 1) :
    s.run.acceptedUntilUs = u.endUs j := by
  have hlt : j < u.count := by
    have := h.count
    omega
  unfold ProgramRun.acceptedUntilUs
  rw [h.points, hj, getLast?_take, endUs_eq hlt]
  cases u.points[u.lastIndex j]? <;> rfl

theorem Synced.not_final (h : u.Synced s) (hnext : s.nextChunk < u.count) :
    s.run.finalReceived = false := by
  rw [h.final]
  exact decide_eq_false hnext.ne

/-- With enough for the start in the buffer, something was sent. -/
theorem Synced.exists_eq_succ (h : u.Synced s)
    (hbuffered : u.prebufferUs ≤ s.run.acceptedUntilUs) : ∃ j, s.nextChunk = j + 1 := by
  refine Nat.exists_eq_succ_of_ne_zero fun hzero => ?_
  have hnil : s.run.points = [] := by
    rw [h.points, hzero, Nat.zero_mul]
    rfl
  unfold ProgramRun.acceptedUntilUs at hbuffered
  rw [hnil] at hbuffered
  exact absurd u.prebufferUs_pos (not_lt.2 hbuffered)

theorem Synced.congr (h : u.Synced s) (hnext : s'.nextChunk = s.nextChunk)
    (hpoints : s'.run.points = s.run.points)
    (hreceipts : s'.run.chunkReceipts = s.run.chunkReceipts)
    (hfinal : s'.run.finalReceived = s.run.finalReceived) : u.Synced s' := by
  refine ⟨hnext ▸ h.count, ?_, fun k hk => ?_, ?_⟩
  · rw [hpoints, hnext, h.points]
  · rw [hreceipts]
    exact h.fresh k (hnext ▸ hk)
  · rw [hfinal, hnext, h.final]

variable [FloatTrunc F]

/-- The server serves the default policy in streaming mode, and refused nothing for its time. -/
structure Serving (s : Streaming F) : Prop where
  track : s.run.TrackOk
  policy : s.run.policy = .default
  mode : s.run.runMode = .streaming
  refusals : ∀ e ∈ s.refusals, ¬e.IsPacing

variable [LawfulClock F]

theorem Serving.of_step (h : Serving s) {l : ProgramRun.Label F} {run : ProgramRun F}
    (hs : s.run.step l = some run) : Serving { s with run } := by
  have hcfg := ProgramRun.config_of_step hs
  refine ⟨h.track.step hs, ?_, ?_, h.refusals⟩
  · show run.policy = .default
    rw [hcfg]
    exact h.policy
  · show run.runMode = .streaming
    rw [hcfg]
    exact h.mode

omit [FloatRepr F] [Sha256] [LawfulClock F] in
/-- Only the run and the refusals matter. -/
theorem Serving.congr (h : Serving s) (hrun : s'.run = s.run)
    (hrefusals : s'.refusals = s.refusals) : Serving s' := by
  refine ⟨?_, ?_, ?_, ?_⟩
  · rw [hrun]
    exact h.track
  · rw [hrun]
    exact h.policy
  · rw [hrun]
    exact h.mode
  · rw [hrefusals]
    exact h.refusals

theorem Serving.giveUp (h : Serving s) : Serving (giveUp s) := by
  have hstop : Serving { s with
      run := if s.phase = .buffering then s.run
        else s.run.requestStop (py "client-side failure") } := by
    split_ifs
    · exact h
    · exact h.of_step (l := .requestStop (py "client-side failure")) rfl
  exact (hstop.of_step (l := .connectionLost) rfl).congr rfl rfl

omit [PyFloat F] [FloatRepr F] [Sha256] [FloatTrunc F] [LawfulClock F] in
theorem giveUp_pc (s : Streaming F) : (giveUp s).run.pc = s.run.pc := by
  unfold Upload.giveUp ProgramRun.connectionLost
  simp only
  split_ifs <;> split <;> rfl

omit [PyFloat F] [FloatRepr F] [Sha256] [FloatTrunc F] [LawfulClock F] in
theorem giveUp_stopEvent (h : s.phase ≠ .buffering) : (giveUp s).run.stopEvent = true := by
  unfold Upload.giveUp ProgramRun.connectionLost
  simp only
  rw [if_neg h]
  split <;> rfl

/-- A chunk that comes in time is accepted, or the client gives up for another reason. -/
theorem sendChunk_cases (hserving : Serving s) (hsync : u.Synced s) (hnext : s.nextChunk < u.count)
    (hstate : s.run.state = .buffering ∨ s.run.state = .running)
    (hhorizon : u.endUs s.nextChunk - s.run.cursorUs ≤ 30000000) :
    (∃ s' receipt, u.sendChunk s = (s', some receipt) ∧ Serving s' ∧ u.Synced s' ∧
      s'.nextChunk = s.nextChunk + 1 ∧ s'.phase = s.phase ∧ s'.run.pc = s.run.pc ∧
      s'.run.state = s.run.state ∧ s'.run.cursorUs = s.run.cursorUs ∧
      receipt.acceptedUntilUs = s'.run.acceptedUntilUs) ∨
    ∃ s', u.sendChunk s = (s', none) ∧ Serving s' ∧ s'.phase = .failed ∧
      s'.run.pc = s.run.pc ∧ (s.phase ≠ .buffering → s'.run.stopEvent = true) := by
  unfold sendChunk
  simp only
  split
  · exact .inr ⟨_, rfl, hserving.giveUp, rfl, giveUp_pc s, giveUp_stopEvent⟩
  · rename_i digest hdigest
    generalize hc : (⟨s.nextChunk, u.chunk s.nextChunk, decide (s.nextChunk + 1 = u.count),
      digest⟩ : Chunk F) = c
    have hpoints : c.points = u.chunk s.nextChunk := by rw [← hc]
    have hend : (s.run.extend c).acceptedUntilUs = u.endUs s.nextChunk := by
      rw [ProgramRun.acceptedUntilUs_extend (by rw [hpoints]; exact chunk_ne_nil hnext), hpoints]
      rfl
    have hrefused : ∀ e, (s.run.appendChunk c).1 = .error e → ¬e.IsPacing := by
      intro e he hp
      rcases ProgramRun.validateChunk_isPacing (ProgramRun.validateChunk_of_isPacing he hp) hp with
        (hbusy | hfinal) | hfar
      · exact hbusy hstate
      · rw [hsync.not_final hnext] at hfinal
        cases hfinal
      · rw [hend, hserving.policy] at hfar
        have hlimit : (30000000 : ℤ) < u.endUs s.nextChunk - s.run.cursorUs := hfar
        omega
    have hstep := hserving.of_step (l := .append c) rfl
    have happend := ProgramRun.appendChunk_appended s.run c
    generalize s.run.appendChunk c = x at hrefused hstep happend
    obtain ⟨reply, run⟩ := x
    cases reply with
    | error e =>
      have hgone : Serving { s with run, refusals := s.refusals ++ [e] } := by
        refine ⟨hstep.track, hstep.policy, hstep.mode, fun e' he' => ?_⟩
        rcases List.mem_append.1 he' with he' | he'
        · exact hserving.refusals e' he'
        · cases List.mem_singleton.1 he'
          exact hrefused e rfl
      have hpc : run.pc = s.run.pc := by cases happend <;> rfl
      exact .inr ⟨_, rfl, hgone.giveUp, rfl, (giveUp_pc _).trans hpc, fun h => giveUp_stopEvent h⟩
    | ok receipt =>
      refine .inl ⟨_, receipt, rfl, hstep.congr rfl rfl, ?_⟩
      cases happend with
      | repeated _ hold =>
        have hfresh := hsync.fresh s.nextChunk le_rfl
        rw [← hc] at hold
        rw [hfresh] at hold
        cases hold
      | accepted hnew hok =>
        refine ⟨⟨hnext, ?_, fun k hk => ?_, ?_⟩, rfl, rfl, rfl, rfl, rfl, rfl⟩
        · show s.run.points ++ c.points = _
          rw [hsync.points, hpoints, take_append_chunk]
        · show Table.get (s.run.chunkReceipts.insert c.chunkSeq _) _ = none
          rw [Table.get_insert, if_neg]
          · exact hsync.fresh k (by simp only at hk; omega)
          · rw [← hc]
            simp only at hk ⊢
            omega
        · show c.final = _
          rw [← hc]

/-! ## The schedule -/

/-- Every chunk the client buffers before the start ends inside the server's horizon. -/
def PrebufferFits (u : Upload F) : Prop :=
  ∀ j < u.count, (∀ i < j, u.endUs i < u.prebufferUs) → u.endUs j ≤ 30000000

/-- Every chunk not buffered before the start was due at a cursor before a tick comes behind the end
of the chunk before it. -/
def Due (u : Upload F) (before cursorUs : ℤ) : Prop := ∀ j < u.count - 1,
  u.prebufferUs ≤ u.endUs j → u.endUs j < cursorUs → u.endUs (j + 1) - before ≤ u.targetAheadUs

instance (before cursorUs : ℤ) : Decidable (u.Due before cursorUs) :=
  Nat.decidableBallLT _ _

instance : Decidable u.PrebufferFits := Nat.decidableBallLT _ _

/-- The cursor of the tick that begins with this step. -/
def tickCursor (s : Streaming F) : Label F → Option ℤ
  | .exec (.clock now) => match s.run.pc with
    | .tick l => (cursorAt l.started now).toOption
    | _ => none
  | _ => none

/-- A tick begins when what it needs was due at the cursor published before. -/
def Punctual (u : Upload F) (s : Streaming F) (label : Label F) : Prop :=
  ∀ cursorUs ∈ tickCursor s label, u.Due s.run.cursorUs cursorUs

instance (s : Streaming F) (label : Label F) : Decidable (u.Punctual s label) :=
  inferInstanceAs (Decidable (∀ cursorUs ∈ tickCursor s label, u.Due s.run.cursorUs cursorUs))

end Upload

/-- The reading of a tick that has not found its segment yet. -/
def Pc.search? : Pc F → Option (Loop F × F)
  | .heartbeatCheck l now | .locate l now => some (l, now)
  | _ => none

namespace Upload

variable [PyFloat F] [FloatRepr F] [Sha256] [FloatTrunc F] {u : Upload F} {s s' : Streaming F}

/-- A tick that looks for its segment finds it, or the program is complete. -/
def Covered (s : Streaming F) : Prop := ∀ l now cursorUs, s.run.pc.search? = some (l, now) →
  cursorAt l.started now = .ok cursorUs →
  cursorUs ≤ s.run.acceptedUntilUs ∨ s.run.finalReceived = true

/-- Where the upload stands, by the phase of the client. -/
def PhaseOk (u : Upload F) (s : Streaming F) : Prop := match s.phase with
  | .buffering => u.Synced s ∧ s.run.pc = .unstarted ∧ s.run.state = .buffering ∧
    s.nextChunk < u.count ∧ ∀ j < s.nextChunk, u.endUs j < u.prebufferUs
  | .starting => u.Synced s ∧ s.run.pc = .unstarted ∧ s.run.state = .buffering ∧
    u.prebufferUs ≤ s.run.acceptedUntilUs
  | .producing => u.Synced s ∧ u.prebufferUs ≤ s.run.acceptedUntilUs ∧
    (s.nextChunk < u.count → u.targetAheadUs < u.endUs s.nextChunk - s.run.cursorUs) ∧ Covered s
  | .failed => (s.run.pc = .unstarted ∨ s.run.stopEvent = true) ∧ s.run.pc.search? = none

omit [FloatTrunc F] in
/-- A client with nothing due does nothing. -/
theorem catchUp_of_waiting (h : s.phase = .producing → s.nextChunk < u.count →
    u.targetAheadUs < u.endUs s.nextChunk - s.run.cursorUs) : u.catchUp s = s := by
  unfold catchUp
  cases u.count - s.nextChunk with
  | zero => rfl
  | succ n =>
    rw [produce, if_neg]
    rintro ⟨hphase, hnext, hdue⟩
    exact absurd (h hphase hnext) (not_lt.2 hdue)

theorem phaseOk_of_producing (hphase : s.phase = .producing) (hsync : u.Synced s)
    (hbuffered : u.prebufferUs ≤ s.run.acceptedUntilUs)
    (hwait : s.nextChunk < u.count → u.targetAheadUs < u.endUs s.nextChunk - s.run.cursorUs)
    (hcovered : Covered s) : u.PhaseOk s := by
  rw [PhaseOk, hphase]
  exact ⟨hsync, hbuffered, hwait, hcovered⟩

variable [LawfulClock F]

/-- Behind a tick the client sends what is due, and waits for the rest. -/
theorem produce_ok (n : ℕ) (hserving : Serving s) (hsync : u.Synced s)
    (hphase : s.phase = .producing) (hbuffered : u.prebufferUs ≤ s.run.acceptedUntilUs) {t : Tick F}
    {m : Pose F} {a : ℤ} (hpc : s.run.pc = .telemetry t m a) (hn : u.count - s.nextChunk ≤ n) :
    Serving (u.produce n s) ∧ u.PhaseOk (u.produce n s) := by
  have hcovered : Covered s := by
    intro l now c hsearch
    rw [hpc] at hsearch
    cases hsearch
  induction n generalizing s with
  | zero =>
    rw [produce]
    exact ⟨hserving, phaseOk_of_producing hphase hsync hbuffered (fun hlt => by omega) hcovered⟩
  | succ n ih =>
    rw [produce]
    split_ifs with hdue
    · have hstate : s.run.state = .running := by
        have h := hserving.track.run.stage.state
        rw [hpc] at h
        exact h
      have htarget := u.target_mem.2
      rcases sendChunk_cases hserving hsync hdue.2.1 (.inr hstate) (by omega) with
        ⟨s', receipt, he, hserving', hsync', hnext', hphase', hpc', -, -, -⟩ |
        ⟨s', he, hserving', hphase', hpc', hstop⟩
      · have hpc'' := hpc'.trans hpc
        rw [he]
        show Serving (u.produce n s') ∧ u.PhaseOk (u.produce n s')
        refine ih hserving' hsync' (hphase'.trans hphase) ?_ hpc'' (by omega) ?_
        · obtain ⟨j, hj⟩ := hsync.exists_eq_succ hbuffered
          have hmore : u.endUs j < u.endUs s.nextChunk := endUs_lt (by omega) hdue.2.1
          rw [hsync'.acceptedUntilUs hnext']
          rw [hsync.acceptedUntilUs hj] at hbuffered
          omega
        · intro l now c hsearch
          rw [hpc''] at hsearch
          cases hsearch
      · have hstay : u.produce n s' = s' := by
          cases n with
          | zero => rfl
          | succ n =>
            rw [produce, if_neg]
            rintro ⟨hp, -, -⟩
            rw [hphase'] at hp
            cases hp
        rw [he]
        show Serving (u.produce n s') ∧ u.PhaseOk (u.produce n s')
        rw [hstay]
        refine ⟨hserving', ?_⟩
        rw [PhaseOk, hphase']
        refine ⟨.inr (hstop (by rw [hphase]; exact fun h => by cases h)), ?_⟩
        rw [hpc', hpc]
        rfl
    · refine ⟨hserving, phaseOk_of_producing hphase hsync hbuffered (fun hlt => ?_) hcovered⟩
      by_contra hnot
      exact hdue ⟨hphase, hlt, not_lt.1 hnot⟩

/-! ## Steps -/

omit [FloatRepr F] [Sha256] [LawfulClock F] in
theorem cursorUs_of_unstarted (h : Serving s) (hpc : s.run.pc = .unstarted) :
    s.run.cursorUs = 0 := by
  have hcursor := h.track.cursor
  rw [ProgramRun.CursorOk, hpc] at hcursor
  exact hcursor

theorem buffer_ok (hfits : u.PrebufferFits) (hserving : Serving s) (hphase : s.phase = .buffering)
    (h : u.PhaseOk s) : Serving (u.buffer s) ∧ u.PhaseOk (u.buffer s) := by
  rw [PhaseOk, hphase] at h
  obtain ⟨hsync, hpc, hstate, hnext, hearlier⟩ := h
  have hhorizon : u.endUs s.nextChunk - s.run.cursorUs ≤ 30000000 := by
    have := hfits s.nextChunk hnext hearlier
    have := cursorUs_of_unstarted hserving hpc
    omega
  unfold buffer
  rcases sendChunk_cases hserving hsync hnext (.inl hstate) hhorizon with
    ⟨s', receipt, he, hserving', hsync', hnext', hphase', hpc', hstate', -, hreceipt⟩ |
    ⟨s', he, hserving', hphase', hpc', -⟩
  · have haccepted := hsync'.acceptedUntilUs hnext'
    rw [he]
    simp only
    split_ifs with hdone
    · refine ⟨hserving'.congr rfl rfl, ?_⟩
      refine ⟨hsync'.congr rfl rfl rfl rfl, hpc'.trans hpc, hstate'.trans hstate, ?_⟩
      rcases hdone with hdone | hdone
      · exact hreceipt ▸ hdone
      · show u.prebufferUs ≤ s'.run.acceptedUntilUs
        have hcount := hsync'.count
        rw [haccepted, endUs_final (by omega)]
        exact min_le_right _ _
    · rw [not_or, not_le, not_not] at hdone
      refine ⟨hserving', ?_⟩
      rw [PhaseOk, hphase', hphase]
      refine ⟨hsync', hpc'.trans hpc, hstate'.trans hstate, hdone.2, fun j hj => ?_⟩
      by_cases hold : j < s.nextChunk
      · exact hearlier j hold
      · obtain rfl : j = s.nextChunk := by omega
        rw [← haccepted, ← hreceipt]
        exact hdone.1
  · rw [he]
    refine ⟨hserving', ?_⟩
    rw [PhaseOk, hphase']
    exact ⟨.inl (hpc'.trans hpc), by rw [hpc', hpc]; rfl⟩

/-- The start is not refused. -/
theorem start_ok (hserving : Serving s) (hphase : s.phase = .starting) (h : u.PhaseOk s) :
    Serving (u.catchUp (sendStart s)) ∧ u.PhaseOk (u.catchUp (sendStart s)) := by
  rw [PhaseOk, hphase] at h
  obtain ⟨hsync, hpc, hstate, hbuffered⟩ := h
  obtain ⟨j, hj⟩ := hsync.exists_eq_succ hbuffered
  have haccepted := hsync.acceptedUntilUs hj
  have hcursor := cursorUs_of_unstarted hserving hpc
  -- the next chunk ends behind the lookahead
  have hwait : s.nextChunk < u.count → u.targetAheadUs < u.endUs s.nextChunk := by
    intro hlt
    have hlast := endUs_le_lastUs hlt
    have hmore : u.endUs j < u.endUs s.nextChunk := endUs_lt (by omega) hlt
    unfold prebufferUs at hbuffered
    omega
  unfold sendStart
  split
  · rename_i e he
    exfalso
    rcases ProgramRun.start_eq_error he hstate with hfew | ⟨hmode, -⟩ | ⟨hfinal, hlow⟩
    · -- a single point ends at zero
      have hlen := u.two_le_length
      rw [hsync.points, hj, List.length_take] at hfew
      have hindex : u.lastIndex j = 0 := by
        unfold lastIndex
        omega
      have hcount := hsync.count
      rw [haccepted, endUs_eq (by omega), hindex, List.getElem?_eq_getElem (by omega)] at hbuffered
      exact absurd u.prebufferUs_pos (not_lt.2 (hbuffered.trans u.first_tUs.le))
    · rw [hserving.mode] at hmode
      cases hmode
    · have hlt : s.nextChunk < u.count := by
        rw [hsync.final] at hfinal
        have hne := of_decide_eq_false hfinal
        have hcount := hsync.count
        omega
      have htarget := u.target_mem.1
      have hlast := endUs_le_lastUs hlt
      have hmore : u.endUs j < u.endUs s.nextChunk := endUs_lt (by omega) hlt
      rw [hserving.policy] at hlow
      have hlow : s.run.acceptedUntilUs < 2000000 := hlow
      unfold prebufferUs at hbuffered
      omega
  · rename_i run hrun
    have hstep : s.run.step .start = some run := by
      unfold ProgramRun.step
      rw [hrun]
    have hserving' := hserving.of_step hstep
    obtain ⟨-, -, -, -, rfl⟩ := ProgramRun.start_eq_ok.1 hrun
    rw [catchUp_of_waiting]
    · refine ⟨hserving'.congr rfl rfl, ?_⟩
      refine ⟨hsync.congr rfl rfl rfl rfl, hbuffered, fun hlt => ?_, fun l now c hsearch => ?_⟩
      · show u.targetAheadUs < u.endUs s.nextChunk - s.run.cursorUs
        have := hwait hlt
        omega
      · cases hsearch
    · intro _ hlt
      show u.targetAheadUs < u.endUs s.nextChunk - s.run.cursorUs
      have := hwait hlt
      omega

omit [FloatRepr F] [Sha256] [LawfulClock F] in
/-- A tick begins with a reading of the clock. -/
theorem clock_of_tick {r r' : ProgramRun F} {act : Act F} {l l' : Loop F} {now : F}
    (h : r.exec act = some r') (hpc : r.pc = .tick l) (hpc' : r'.pc = .heartbeatCheck l' now) :
    act = .clock now := by
  unfold ProgramRun.exec at h
  rw [hpc] at h
  cases act with
  | clock now' =>
    obtain ⟨r₁, -, rfl⟩ := Option.map_eq_some_iff.1 h
    unfold ProgramRun.beginTick at hpc'
    split_ifs at hpc'
    cases hpc'
    rfl
  | _ => cases h

omit [LawfulClock F] in
/-- A step that leaves the client with nothing due. -/
theorem waiting_ok {run : ProgramRun F} (hserving : Serving { s with run })
    (hsync : u.Synced { s with run }) (hphase : s.phase = .producing)
    (hbuffered : u.prebufferUs ≤ run.acceptedUntilUs)
    (hwait : s.nextChunk < u.count → u.targetAheadUs < u.endUs s.nextChunk - run.cursorUs)
    (hcovered : Covered { s with run }) :
    Serving (u.catchUp { s with run }) ∧ u.PhaseOk (u.catchUp { s with run }) := by
  rw [catchUp_of_waiting fun _ => hwait]
  exact ⟨hserving, phaseOk_of_producing hphase hsync hbuffered hwait hcovered⟩

theorem exec_failed (hserving : Serving s) (hphase : s.phase = .failed) (h : u.PhaseOk s)
    {act : Act F} {run : ProgramRun F} (hx : s.run.exec act = some run) :
    Serving (u.catchUp { s with run }) ∧ u.PhaseOk (u.catchUp { s with run }) := by
  have hserving' := hserving.of_step (l := .exec act) hx
  rw [PhaseOk, hphase] at h
  rw [catchUp_of_waiting fun hp => by rw [show s.phase = .producing from hp] at hphase; cases hphase]
  refine ⟨hserving', ?_⟩
  rw [PhaseOk]
  simp only [hphase]
  have hx := ProgramRun.exec_moved hx
  have hstop : s.run.stopEvent = true := by
    rcases h.1 with hpc | hstop
    · exact absurd (by rw [hpc]; rfl) hx.stage_ne_idle
    · exact hstop
  refine ⟨.inr (hx.frame.2.2.2.2.2.2.trans hstop), ?_⟩
  cases hx with
  | tick hpc hclock hgo =>
    rw [hstop] at hgo
    cases hgo
  | alive hpc =>
    rw [hpc] at h
    cases h.2
  | _ => rfl

theorem exec_producing (hserving : Serving s) (hphase : s.phase = .producing) (h : u.PhaseOk s)
    {act : Act F} {run : ProgramRun F} (hx : s.run.exec act = some run)
    (hpunctual : u.Punctual s (.exec act)) :
    Serving (u.catchUp { s with run }) ∧ u.PhaseOk (u.catchUp { s with run }) := by
  have hserving' := hserving.of_step (l := .exec act) hx
  rw [PhaseOk, hphase] at h
  obtain ⟨hsync, hbuffered, hwait, hcovered⟩ := h
  have hmoved := ProgramRun.exec_moved hx
  have hframe := hmoved.frame
  have hsync' : u.Synced { s with run } :=
    hsync.congr rfl hframe.2.1 hframe.2.2.1 hframe.2.2.2.2.1
  cases hmoved with
  | publish hpc => exact produce_ok _ hserving' hsync' hphase hbuffered rfl le_rfl
  | publishLast hpc =>
    have hfinal : s.nextChunk = u.count := by
      have hcursor := hserving.track.cursor
      rw [ProgramRun.CursorOk, hpc] at hcursor
      exact of_decide_eq_true (hsync.final.symm.trans hcursor.1)
    refine waiting_ok hserving' hsync' hphase hbuffered (fun hlt => absurd hfinal hlt.ne) ?_
    intro l now c hsearch
    cases hsearch
  | @tick l now hpc =>
    refine waiting_ok hserving' hsync' hphase hbuffered hwait fun l' now' c hsearch hc => ?_
    cases hsearch
    by_cases hlast : s.nextChunk = u.count
    · exact .inr (hsync.final.trans (decide_eq_true hlast))
    · obtain ⟨j, hj⟩ := hsync.exists_eq_succ hbuffered
      have hcount := hsync.count
      have hlt : j + 1 < u.count := by omega
      refine .inl (not_lt.1 fun hpast => ?_)
      have haccepted : s.run.acceptedUntilUs = u.endUs j := hsync.acceptedUntilUs hj
      have hpast : u.endUs j < c := haccepted ▸ hpast
      have hcursor : c ∈ tickCursor s (.exec act) := by
        rw [clock_of_tick hx hpc rfl, tickCursor, hpc]
        simp only [hc]
        rfl
      have hdue := hpunctual c hcursor j (by omega) (haccepted ▸ hbuffered) hpast
      have hwait := hwait (by omega)
      rw [hj] at hwait
      omega
  | alive hpc =>
    refine waiting_ok hserving' hsync' hphase hbuffered hwait fun l' now' c hsearch hc => ?_
    cases hsearch
    exact hcovered _ _ c (by rw [hpc]; rfl) hc
  | _ =>
    refine waiting_ok hserving' hsync' hphase hbuffered hwait fun l' now' c hsearch hc => ?_
    cases hsearch

/-- The server and the client fit together. -/
structure PacedOk (u : Upload F) (s : Streaming F) : Prop where
  serving : Serving s
  phase : u.PhaseOk s

omit [FloatRepr F] [Sha256] [LawfulClock F] in
theorem serving_openRun [FloatRepr F] [Sha256] (u : Upload F) (cfg : RunConfig F) (now : F) :
    Serving (u.openRun cfg now) :=
  ⟨ProgramRun.trackOk_init _ now, rfl, rfl, fun e he => by cases he⟩

omit [LawfulClock F] in
theorem phaseOk_openRun (u : Upload F) (cfg : RunConfig F) (now : F) :
    u.PhaseOk (u.openRun cfg now) := by
  refine ⟨⟨Nat.zero_le _, ?_, fun k _ => Table.get_empty _, ?_⟩, rfl, rfl, u.count_pos, fun j hj => ?_⟩
  · show [] = u.points.take (0 * u.chunkPoints)
    rw [Nat.zero_mul]
    rfl
  · exact (decide_eq_false u.count_pos.ne).symm
  · cases hj

omit [LawfulClock F] in
/-- The other clients and the heartbeats change nothing of this. -/
theorem PhaseOk.congr {run : ProgramRun F} (h : u.PhaseOk s) (hpc : run.pc = s.run.pc)
    (hstate : run.state = s.run.state) (hpoints : run.points = s.run.points)
    (hreceipts : run.chunkReceipts = s.run.chunkReceipts)
    (hfinal : run.finalReceived = s.run.finalReceived) (hcursor : run.cursorUs = s.run.cursorUs)
    (hstop : s.run.stopEvent = true → run.stopEvent = true) : u.PhaseOk { s with run } := by
  have haccepted : run.acceptedUntilUs = s.run.acceptedUntilUs := by
    unfold ProgramRun.acceptedUntilUs
    rw [hpoints]
  have hsync : u.Synced s → u.Synced { s with run } := fun h =>
    h.congr rfl hpoints hreceipts hfinal
  unfold PhaseOk Covered at *
  cases hphase : s.phase <;> rw [hphase] at h <;> simp only [hpc, hstate, hcursor, haccepted, hfinal]
  case buffering => exact ⟨hphase ▸ hsync h.1, h.2⟩
  case starting => exact ⟨hphase ▸ hsync h.1, h.2⟩
  case producing => exact ⟨hphase ▸ hsync h.1, h.2⟩
  case failed => exact ⟨h.1.imp_right hstop, h.2⟩

theorem PacedOk.step (h : u.PacedOk s) (hfits : u.PrebufferFits) {label : Label F}
    (hpunctual : u.Punctual s label) (hs : u.step s label = some s') : u.PacedOk s' := by
  obtain ⟨hserving, hphase⟩ := h
  cases label with
  | client =>
    unfold Upload.step at hs
    simp only at hs
    split at hs
    · rename_i hp
      cases hs
      have hnext := buffer_ok hfits hserving hp hphase
      exact ⟨hnext.1, hnext.2⟩
    · rename_i hp
      cases hs
      have hnext := start_ok hserving hp hphase
      exact ⟨hnext.1, hnext.2⟩
    · cases hs
  | heartbeat now =>
    have hs : (if PyFloat.le s.run.clock now = true then
        some { s with run := s.run.heartbeat now } else none) = some s' := hs
    split_ifs at hs with hclock
    cases hs
    exact ⟨hserving.of_step (l := .heartbeat now) (if_pos hclock),
      hphase.congr rfl rfl rfl rfl rfl rfl id⟩
  | stop reason =>
    cases hs
    exact ⟨hserving.of_step (l := .requestStop reason) rfl,
      hphase.congr rfl rfl rfl rfl rfl rfl fun _ => rfl⟩
  | exec act =>
    obtain ⟨run, hx, rfl⟩ := Option.map_eq_some_iff.1 hs
    by_cases hproducing : s.phase = .producing
    · have hnext := exec_producing hserving hproducing hphase hx hpunctual
      exact ⟨hnext.1, hnext.2⟩
    by_cases hfailed : s.phase = .failed
    · have hnext := exec_failed hserving hfailed hphase hx
      exact ⟨hnext.1, hnext.2⟩
    -- before the start the server has no thread
    have hpc : s.run.pc = .unstarted := by
      unfold PhaseOk at hphase
      split at hphase
      · exact hphase.2.1
      · exact hphase.2.1
      · exact absurd ‹_› hproducing
      · exact absurd ‹_› hfailed
    exact absurd (by rw [hpc]; rfl) (ProgramRun.exec_moved hx).stage_ne_idle

theorem pacedOk_of_run (hfits : u.PrebufferFits) {cfg : RunConfig F} {now : F} {ls : List (Label F)}
    (hs : Transition.run u.step (u.openRun cfg now) ls = some s)
    (hok : Transition.Along u.step u.Punctual (u.openRun cfg now) ls) : u.PacedOk s :=
  Transition.run_invariant_along (fun _ _ _ h hp hs => h.step hfits hp hs) hs hok
    ⟨serving_openRun u cfg now, phaseOk_openRun u cfg now⟩

omit [LawfulClock F] in
/-- Every tick that looks for its segment is covered. -/
theorem PhaseOk.covered (h : u.PhaseOk s) : Covered s := by
  intro l now c hsearch hc
  unfold PhaseOk at h
  split at h
  · rw [h.2.1] at hsearch
    cases hsearch
  · rw [h.2.1] at hsearch
    cases hsearch
  · exact h.2.2.2 l now c hsearch hc
  · rw [h.2] at hsearch
    cases hsearch

/-- Where the chunks buffered before the start end inside the horizon and every tick is punctual,
no message is refused for its time and no tick finds the buffer dry. -/
theorem stream_keeps_up (u : Upload F) (hfits : u.PrebufferFits) (cfg : RunConfig F) (now : F)
    (ls : List (Label F)) (s : Streaming F)
    (hs : Transition.run u.step (u.openRun cfg now) ls = some s)
    (hok : Transition.Along u.step u.Punctual (u.openRun cfg now) ls) :
    (∀ e ∈ s.refusals, ¬e.IsPacing) ∧
    ∀ l now' run, s.run.pc = .locate l now' → s.run.exec .internal = some run →
      run.pc ≠ .fault (ProgramRun.underrun F) := by
  have h := pacedOk_of_run hfits hs hok
  have htrack := h.serving.track
  refine ⟨h.serving.refusals, fun l now' run hpc hx hunder => ?_⟩
  unfold ProgramRun.exec at hx
  rw [hpc] at hx
  cases hx
  cases hnow : cursorAt l.started now' with
  | error e =>
    unfold ProgramRun.locate at hunder
    rw [hnow] at hunder
    cases hunder
  | ok cursorUs =>
    have hdry := (ProgramRun.locate_underrun htrack.loaded htrack.index htrack.cursor hpc hnow).1 hunder
    rcases h.phase.covered l now' cursorUs (by rw [hpc]; rfl) hnow with hle | hfinal
    · exact absurd hle (not_le.2 hdry.1)
    · rw [hdry.2] at hfinal
      cases hfinal

end Upload

/-! ## Two uploads that fail and one that does not -/

section Demo

local instance pacingHash : Sha256 := lengthHash

/-- The code of the exception a handler is about to report. -/
def Pc.faultCode? : Pc F → Option Code
  | .fault e => e.outcome.code
  | _ => none

theorem hash_demo (points : List (TrajectoryPoint ℚ)) : programDigest demoHeader points =
    .ok ((programDigest demoHeader points).toOption.getD []) := by
  have hid : encodable demoHeader.programId = true := by decide
  obtain ⟨digest, h⟩ := exists_programDigest hid points
  rw [h]
  rfl

theorem load_demo {points : List (TrajectoryPoint ℚ)}
    (h : (validatePoints demoHeader points .default true).isOk = true) :
    validatePoints demoHeader points .default true = .ok () := by
  obtain ⟨⟨⟩, h⟩ := exists_of_isOk h
  exact h

/-- Two points, half a minute apart. -/
def demoFarUpload : Upload ℚ where
  header := demoHeader
  points := [⟨0, demoPose 0⟩, ⟨31000000, demoPose 1⟩]
  digest := _
  chunkPoints := 64
  targetAheadUs := 5000000
  load := load_demo (by decide +kernel)
  hash := hash_demo _
  chunkPoints_mem := by decide
  target_mem := by decide

/-- A segment longer than the lookahead, a point a chunk. -/
def demoSlowUpload : Upload ℚ where
  header := demoHeader
  points := [⟨0, demoPose 0⟩, ⟨2000000, demoPose 1⟩, ⟨8000000, demoPose 0⟩]
  digest := _
  chunkPoints := 1
  targetAheadUs := 2000000
  load := load_demo (by decide +kernel)
  hash := hash_demo _
  chunkPoints_mem := by decide
  target_mem := by decide

/-- A point a second, a point a chunk. -/
def demoSteadyUpload : Upload ℚ where
  header := demoHeader
  points := [⟨0, demoPose 0⟩, ⟨1000000, demoPose 1⟩, ⟨2000000, demoPose 0⟩, ⟨3000000, demoPose 1⟩]
  digest := _
  chunkPoints := 1
  targetAheadUs := 2000000
  load := load_demo (by decide +kernel)
  hash := hash_demo _
  chunkPoints_mem := by decide
  target_mem := by decide

/-- `n` chunks and the start, then the server up to the end of its first tick. -/
def demoStarted (n : ℕ) : List (Upload.Label ℚ) :=
  List.replicate (n + 1) Upload.Label.client ++
    [Upload.Label.exec .returned, .exec (.array demoStartPose), .exec .internal, .exec .internal,
      .exec .returned, .exec .internal, .exec .internal, .exec (.clock 0), .exec (.clock 0),
      .exec .internal, .exec .internal, .exec (.pose (demoPose 0)), .exec .returned,
      .exec .internal, .exec .internal, .exec (.clock 0)]

/-- A tick at this reading, up to its search. -/
def demoSearch (now : ℚ) : List (Upload.Label ℚ) :=
  [.exec (.clock now), .exec .internal, .exec .internal]

theorem stream_keeps_up_counterexample :
    (Transition.run demoFarUpload.step (demoFarUpload.openRun (demoConfig .streaming []) 0)
      [.client]).map (fun s => s.refusals.map fun e => e.outcome.code) = some [some .queueFull] ∧
    (Transition.run demoSlowUpload.step (demoSlowUpload.openRun (demoConfig .streaming []) 0)
      (demoStarted 2 ++ demoSearch (5 / 2))).map (fun s =>
        (s.run.finalReceived, s.run.pc.faultCode?)) = some (false, some .bufferUnderrun) := by
  decide +kernel

theorem stream_keeps_up_demo : ∃ s,
    Transition.run demoSteadyUpload.step (demoSteadyUpload.openRun (demoConfig .streaming []) 0)
      (demoStarted 3 ++ demoSearch 1 ++ [.exec (.pose (demoPose 0)), .exec .returned,
        .exec .internal]) = some s ∧
    s.run.finalReceived = true ∧ ∀ e ∈ s.refusals, ¬e.IsPacing := by
  have hrun : ((Transition.run demoSteadyUpload.step
      (demoSteadyUpload.openRun (demoConfig .streaming []) 0)
      (demoStarted 3 ++ demoSearch 1 ++ [.exec (.pose (demoPose 0)), .exec .returned,
        .exec .internal])).map fun s => s.run.finalReceived) = some true := by decide +kernel
  obtain ⟨s, hs, hfinal⟩ := Option.map_eq_some_iff.1 hrun
  have hok := Upload.stream_keeps_up demoSteadyUpload (by decide +kernel)
    (demoConfig .streaming []) 0 _ s hs (by decide +kernel)
  exact ⟨s, hs, hfinal, hok.1⟩

end Demo

end RemoteRobot.Stream
