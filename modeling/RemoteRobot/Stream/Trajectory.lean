import RemoteRobot.Stream.Execution

/-!
# The trajectory an execution follows

`valueAt` is the meaning of a program: the quintic interpolation of the first segment that does not
end before the cursor.  `_execute` searches from the segment of the tick before, in a list that
grows meanwhile.  Every target it sends is the resolved value at its cursor, however the program
goes on, and the buffer runs dry exactly where the accepted points end before the program does.
-/

namespace RemoteRobot.Stream

open Py Except

variable {F : Type}

/-! ## The piecewise function -/

/-- The segment of a cursor by direct search. -/
def segmentAt (cursorUs : ℤ) : List (TrajectoryPoint F) →
    Option (TrajectoryPoint F × TrajectoryPoint F)
  | a :: b :: points =>
    if cursorUs ≤ b.tUs then some (a, b) else segmentAt cursorUs (b :: points)
  | _ => none

/-- The value of a program at a cursor, none behind its end. -/
def valueAt [PyFloat F] (points : List (TrajectoryPoint F)) (cursorUs : ℤ) : Option (Pose F) :=
  (segmentAt cursorUs points).bind fun s => (interpolateQuintic s.1 s.2 cursorUs).toOption

theorem segmentAt_append {cursorUs : ℤ} {points rest : List (TrajectoryPoint F)}
    {s : TrajectoryPoint F × TrajectoryPoint F} (h : segmentAt cursorUs points = some s) :
    segmentAt cursorUs (points ++ rest) = some s := by
  induction points with
  | nil => cases h
  | cons a points ih =>
    cases points with
    | nil => cases h
    | cons b points =>
      rw [List.cons_append, List.cons_append, segmentAt]
      rw [segmentAt] at h
      split_ifs at h ⊢ with hle
      · exact h
      · exact ih h

/-- The segment behind the points that lie before the cursor. -/
theorem segmentAt_eq_some {cursorUs : ℤ} {k : ℕ} {points : List (TrajectoryPoint F)}
    {a b : TrajectoryPoint F} (ha : points[k]? = some a) (hb : points[k + 1]? = some b)
    (hbefore : ∀ j p, j < k → points[j + 1]? = some p → p.tUs < cursorUs)
    (hle : cursorUs ≤ b.tUs) : segmentAt cursorUs points = some (a, b) := by
  induction k generalizing points with
  | zero =>
    cases points with
    | nil => cases ha
    | cons x points =>
      cases points with
      | nil => cases hb
      | cons y points =>
        cases ha
        cases hb
        rw [segmentAt, if_pos hle]
  | succ k ih =>
    cases points with
    | nil => cases ha
    | cons x points =>
      cases points with
      | nil => cases ha
      | cons y points =>
        have hy : y.tUs < cursorUs := hbefore 0 y (Nat.succ_pos k) rfl
        rw [segmentAt, if_neg (not_le.2 hy)]
        exact ih ha hb fun j p hj hp => hbefore (j + 1) p (Nat.succ_lt_succ hj) hp

/-- What the loop over the segments leaves: everything it moved over lies before the cursor, the
point behind does not. -/
theorem advance_spec (cursorUs : ℤ) (points : List (TrajectoryPoint F)) (i : ℕ) :
    i ≤ advance cursorUs points i ∧ advance cursorUs points i ≤ i + points.length ∧
    (∀ j p, j < advance cursorUs points i - i → points[j]? = some p → p.tUs < cursorUs) ∧
    ∀ p, points[advance cursorUs points i - i]? = some p → cursorUs ≤ p.tUs := by
  induction points generalizing i with
  | nil =>
    rw [advance]
    exact ⟨Nat.le_refl i, Nat.le_refl i, fun _ _ _ hp => (by cases hp), fun _ hp => (by cases hp)⟩
  | cons q points ih =>
    rw [advance]
    split_ifs with hq
    · obtain ⟨hle, hlen, hbefore, hbehind⟩ := ih (i + 1)
      generalize advance cursorUs points (i + 1) = k at *
      have hk : k - i = k - (i + 1) + 1 := by omega
      refine ⟨by omega, by rw [List.length_cons]; omega, fun j p hj hp => ?_, fun p hp => ?_⟩
      · cases j with
        | zero =>
          cases hp
          exact hq
        | succ j => exact hbefore j p (by omega) hp
      · rw [hk] at hp
        exact hbehind p hp
    · refine ⟨Nat.le_refl i, Nat.le_add_right i _, fun j p hj _ => ?_, fun p hp => ?_⟩
      · omega
      · rw [Nat.sub_self] at hp
        cases hp
        exact not_lt.1 hq

/-- The tick that has a target. -/
def Pc.tick? : Pc F → Option (Tick F)
  | .read t | .send t _ | .publish t _ => some t
  | _ => none

theorem Session.no_send {stage : BackendStage} {cs : List (BackendCall F)} (h : Session stage cs)
    (hstage : stage = .opened) (p : Purpose) (q : Pose F) : .sendQ p q ∉ cs := by
  induction h with
  | created => simp
  | prepared _ ih => simpa using ih hstage
  | _ => cases hstage

/-- The code of a `fault` event. -/
def Event.faultCode? : Event F → Option Code
  | .fault code _ => some code
  | _ => none

/-- A code that only the loop raises. -/
def Raised.FromLoop (e : Raised F) : Prop :=
  e.outcome.code = some .bufferUnderrun ∨ e.outcome.code = some .trackingError

namespace ProgramRun

variable [PyFloat F] {r r' : ProgramRun F}

/-! ## The accepted points -/

/-- The times of accepted points do not decrease. -/
theorem tUs_le_of_chain {policy : SafetyPolicy F} {points : List (TrajectoryPoint F)}
    (h : points.IsChain (SegmentOk policy)) {i j : ℕ} (hij : i ≤ j) {p q : TrajectoryPoint F}
    (hp : points[i]? = some p) (hq : points[j]? = some q) : p.tUs ≤ q.tUs := by
  induction j, hij using Nat.le_induction generalizing q with
  | base => rw [Option.some.inj (hp.symm.trans hq)]
  | succ j hij ih =>
    obtain ⟨hlt, rfl⟩ := List.getElem?_eq_some_iff.1 hq
    have hseg := SafetyPolicy.minSegment_of_validate (List.isChain_iff_getElem.1 h j hlt)
    have hprev := ih (List.getElem?_eq_getElem (by omega))
    omega

/-- What a started run has: two points at least, in order, and in sealed mode all of them. -/
structure Loaded (r : ProgramRun F) : Prop where
  chain : r.points.IsChain (SegmentOk r.policy)
  two : r.pc.stage ≠ .idle → 2 ≤ r.points.length
  sealed : r.runMode = .sealed → r.pc.stage ≠ .idle → r.finalReceived = true

theorem loaded_init (cfg : RunConfig F) (now : F) : (init cfg now).Loaded :=
  ⟨.nil, fun h => absurd rfl h, fun _ h => absurd rfl h⟩

theorem Loaded.extend {c : Chunk F} {message : Str} {receipts : Table ℤ (Str × Receipt)}
    (h : r.Loaded) (hc : r.ChunkOk c) :
    { r.extend c with message := message, chunkReceipts := receipts }.Loaded := by
  refine ⟨?_, fun hstage => ?_, fun hmode hstage => ?_⟩
  · have hchain := (validatePoints_eq_ok.1 hc.points).2.1
    show (r.points ++ c.points).IsChain (SegmentOk r.policy)
    rw [List.isChain_append] at hchain ⊢
    refine ⟨h.chain, hchain.2.1, fun x hx y hy => hchain.2.2 x ?_ y hy⟩
    rw [hx]
    rfl
  · have htwo := h.two hstage
    show 2 ≤ (r.points ++ c.points).length
    rw [List.length_append]
    omega
  · have hfinal := h.sealed hmode hstage
    rw [hc.not_final] at hfinal
    cases hfinal

variable [FloatTrunc F]

theorem Executed.stage_ne_idle (hx : Executed r r') : r.pc.stage ≠ .idle := by
  intro hidle
  cases hx with
  | fail htry =>
    rw [hidle] at htry
    cases htry
  | _ hpc =>
    rw [hpc] at hidle
    cases hidle

theorem Loaded.step [FloatRepr F] [Sha256] (h : r.Loaded) {label : Label F}
    (hs : r.step label = some r') : r'.Loaded := by
  refine step_induction hs h (fun _ _ _ => h.extend) (fun hstart => ?_)
    (fun _ _ => ⟨h.chain, h.two, h.sealed⟩) (fun _ => ⟨h.chain, h.two, h.sealed⟩) ?_ fun hx => ?_
  · obtain ⟨-, htwo, hsealed, -, rfl⟩ := start_eq_ok.1 hstart
    exact ⟨h.chain, fun _ => htwo, fun hmode _ => hsealed hmode⟩
  · unfold ProgramRun.connectionLost
    split <;> exact ⟨h.chain, h.two, h.sealed⟩
  · obtain ⟨hcfg, hpoints, -, -, hfinal, -, -⟩ := hx.frame
    refine ⟨?_, fun _ => ?_, fun hmode _ => ?_⟩
    · rw [hpoints, hcfg]
      exact h.chain
    · rw [hpoints]
      exact h.two hx.stage_ne_idle
    · rw [hfinal]
      exact h.sealed (hcfg ▸ hmode) hx.stage_ne_idle

/-! ## The segment index -/

/-- The index is that of a segment, whose first point lies before the cursor unless it is the first
of all. -/
def IndexAt (points : List (TrajectoryPoint F)) (i : ℕ) (cursorUs : ℤ) : Prop :=
  i + 1 < points.length ∧ (0 < i → ∀ p, points[i]? = some p → p.tUs < cursorUs)

omit [PyFloat F] [FloatTrunc F] in
theorem IndexAt.later {points rest : List (TrajectoryPoint F)} {i : ℕ} {c c' : ℤ}
    (h : IndexAt points i c) (hc : c ≤ c') : IndexAt (points ++ rest) i c' := by
  refine ⟨by rw [List.length_append]; have := h.1; omega, fun hi p hp => ?_⟩
  rw [List.getElem?_append_left (by have := h.1; omega)] at hp
  exact lt_of_lt_of_le (h.2 hi p hp) hc

/-- In the loop the index fits the last cursor. -/
def IndexOk (r : ProgramRun F) : Prop := match r.pc with
  | .tick l | .pace l | .heartbeatCheck l _ | .locate l _ =>
    IndexAt r.points l.segmentIndex r.cursorUs
  | .read t | .send t _ | .publish t _ => IndexAt r.points t.segmentIndex t.cursorUs
  | .telemetry t _ _ => IndexAt r.points t.segmentIndex r.cursorUs
  | _ => True

omit [FloatTrunc F] in
/-- The segment a tick finds is that of its cursor, and the index moved to it; finding none, it is
behind the accepted points. -/
theorem IndexAt.advanced {l : Loop F} {c cursorUs : ℤ} (h : IndexAt r.points l.segmentIndex c)
    (hchain : r.points.IsChain (SegmentOk r.policy)) (hc : c ≤ cursorUs) {i : ℕ}
    (hi : i = advance cursorUs (r.points.drop (l.segmentIndex + 1)) l.segmentIndex) :
    (∀ a b, r.points[i]? = some a → r.points[i + 1]? = some b →
      segmentAt cursorUs r.points = some (a, b) ∧ IndexAt r.points i cursorUs ∧
        cursorUs ≤ b.tUs) ∧
    (r.points[i + 1]? = none → r.acceptedUntilUs < cursorUs) := by
  obtain ⟨hle, hlen, hbefore, hbehind⟩ :=
    advance_spec cursorUs (r.points.drop (l.segmentIndex + 1)) l.segmentIndex
  rw [← hi] at hle hlen hbefore hbehind
  rw [List.length_drop] at hlen
  -- everything up to the index lies before the cursor
  have hpast : ∀ j p, j < i → r.points[j + 1]? = some p → p.tUs < cursorUs := by
    intro j p hj hp
    by_cases hnew : l.segmentIndex ≤ j
    · refine hbefore (j - l.segmentIndex) p (by omega) ?_
      rw [List.getElem?_drop, show l.segmentIndex + 1 + (j - l.segmentIndex) = j + 1 by omega]
      exact hp
    · have hfirst := List.getElem?_eq_getElem (show l.segmentIndex < r.points.length by
        have := h.1
        omega)
      have hlt := h.2 (by omega) _ hfirst
      have hle := tUs_le_of_chain hchain (by omega) hp hfirst
      omega
  refine ⟨fun a b ha hb => ?_, fun hnone => ?_⟩
  · have hcb : cursorUs ≤ b.tUs := by
      refine hbehind b ?_
      rw [List.getElem?_drop, show l.segmentIndex + 1 + (i - l.segmentIndex) = i + 1 by omega]
      exact hb
    refine ⟨segmentAt_eq_some ha hb hpast hcb, ⟨?_, fun hpos p hp => ?_⟩, hcb⟩
    · exact (List.getElem?_eq_some_iff.1 hb).1
    · refine hpast (i - 1) p (by omega) ?_
      rw [show i - 1 + 1 = i by omega]
      exact hp
  · have hend : i + 1 = r.points.length := by
      have hout := List.getElem?_eq_none_iff.1 hnone
      have := h.1
      omega
    have hmoved : l.segmentIndex < i := by
      have := h.1
      omega
    have hlast : r.points[i - 1 + 1]? = r.points.getLast? := by
      rw [List.getLast?_eq_getElem?, show i - 1 + 1 = r.points.length - 1 by omega]
    unfold acceptedUntilUs
    cases hp : r.points.getLast? with
    | none =>
      rw [List.getLast?_eq_none_iff] at hp
      rw [hp] at hend
      cases hend
    | some p => exact hpast (i - 1) p (by omega) (hlast.trans hp)

theorem IndexOk.executed (h : r.IndexOk) (hloaded : r.Loaded) (hcursor : r.CursorOk)
    (hx : Executed r r') : r'.IndexOk := by
  unfold IndexOk at h
  unfold CursorOk at hcursor
  cases hx with
  | begin hpc hclock hindex =>
    refine ⟨?_, fun hpos => ?_⟩
    · have htwo := hloaded.two (by rw [hpc]; exact fun he => by cases he)
      rw [hindex]
      exact htwo
    · rw [hindex] at hpos
      cases hpos
  | tick hpc | alive hpc | read hpc | send hpc | publish hpc | telemetry hpc | pace hpc =>
    rw [hpc] at h
    exact h
  | locate hpc hnow hi hprevious hcurrent =>
    rw [hpc] at h hcursor
    exact ((h.advanced hloaded.chain (hcursor _ hnow).1 hi).1 _ _ hprevious hcurrent).2.1
  | _ => exact trivial

omit [PyFloat F] [FloatTrunc F] in
theorem IndexOk.extend {c : Chunk F} {message : Str} {receipts : Table ℤ (Str × Receipt)}
    (h : r.IndexOk) :
    { r.extend c with message := message, chunkReceipts := receipts }.IndexOk := by
  unfold IndexOk ProgramRun.extend at *
  cases hpc : r.pc <;> rw [hpc] at h <;> simp only
  case tick | pace | heartbeatCheck | locate | read | send | publish | telemetry =>
    exact h.later le_rfl

theorem IndexOk.step [FloatRepr F] [Sha256] (h : r.IndexOk) (hstage : r.StageOk)
    (hloaded : r.Loaded) (hcursor : r.CursorOk) {label : Label F} (hs : r.step label = some r') :
    r'.IndexOk := by
  refine step_induction hs h (fun _ _ _ _ => h.extend) (fun hstart => ?_) (fun _ _ => h)
    (fun _ => h) ?_ (h.executed hloaded hcursor)
  · obtain ⟨-, rfl⟩ := hstage.idle_of_start hstart
    exact trivial
  · unfold ProgramRun.connectionLost
    split <;> exact h

/-! ## The targets -/

/-- `q` is the value at the cursor of every program that begins with the accepted points, shifted
by the origin for a relative program. -/
def Commands (r : ProgramRun F) (cursorUs : ℤ) (q : Pose F) : Prop :=
  ∀ rest, ∃ v, valueAt (r.points ++ rest) cursorUs = some v ∧ r.resolve v = .ok q

omit [FloatTrunc F] in
theorem commands_of_interpolate {cursorUs : ℤ} {a b : TrajectoryPoint F} {q : Pose F}
    (hseg : segmentAt cursorUs r.points = some (a, b))
    (hq : r.interpolate a b cursorUs = .ok q) : r.Commands cursorUs q := by
  intro rest
  unfold interpolate at hq
  obtain ⟨v, hv, hresolve⟩ := bind_eq_ok.1 hq
  rw [liftBuiltin_eq_ok] at hv
  refine ⟨v, ?_, hresolve⟩
  unfold valueAt
  rw [segmentAt_append hseg]
  show (interpolateQuintic a b cursorUs).toOption = some v
  rw [hv]
  rfl

omit [FloatTrunc F] in
theorem Commands.later {cursorUs : ℤ} {q : Pose F} (h : r.Commands cursorUs q)
    (hcfg : r'.toRunConfig = r.toRunConfig) (horigin : r'.originQ = r.originQ)
    {new : List (TrajectoryPoint F)} (hpoints : r'.points = r.points ++ new) :
    r'.Commands cursorUs q := by
  intro rest
  obtain ⟨v, hv, hresolve⟩ := h (new ++ rest)
  refine ⟨v, ?_, ?_⟩
  · rw [hpoints, List.append_assoc]
    exact hv
  · unfold resolve at hresolve ⊢
    rw [hcfg, horigin]
    exact hresolve

/-- Every target of a tick is the value at its cursor, that of its reading of the clock. -/
structure CommandOk (r : ProgramRun F) : Prop where
  tick : ∀ t, r.pc.tick? = some t →
    cursorAt t.started t.now = .ok t.cursorUs ∧ r.Commands t.cursorUs t.target
  sent : ∀ t m, r.pc = .publish t m →
    r.calls.getLast? = some (.sendQ (.interpolated t.cursorUs) t.target)
  calls : ∀ c q, .sendQ (.interpolated c) q ∈ r.calls → r.Commands c q

/-- The calls stay right when the new ones are. -/
theorem CommandOk.later (h : r.CommandOk) (hcfg : r'.toRunConfig = r.toRunConfig)
    (horigin : r'.originQ = r.originQ) (hpoints : r'.points = r.points)
    {cs : List (BackendCall F)} (hcalls : r'.calls = r.calls ++ cs)
    (hcs : ∀ c q, .sendQ (.interpolated c) q ∈ cs → r.Commands c q) (c : ℤ) (q : Pose F)
    (hmem : .sendQ (.interpolated c) q ∈ r'.calls) : r'.Commands c q := by
  have hold : r.Commands c q := by
    rw [hcalls] at hmem
    rcases List.mem_append.1 hmem with hmem | hmem
    · exact h.calls c q hmem
    · exact hcs c q hmem
  exact hold.later hcfg horigin (hpoints.trans (List.append_nil _).symm)

theorem CommandOk.executed (h : r.CommandOk) (hbackend : r.BackendOk) (hloaded : r.Loaded)
    (hindex : r.IndexOk) (hcursor : r.CursorOk) (hx : Executed r r') : r'.CommandOk := by
  have hnil : r.calls = r.calls ++ [] := (List.append_nil _).symm
  have hsame : r.points = r.points ++ [] := (List.append_nil _).symm
  cases hx with
  | capture hpc | reject hpc =>
    rw [BackendOk, hpc] at hbackend
    have hnone : ∀ c q, .sendQ (.interpolated c) q ∉ r.calls := fun c q =>
      hbackend.1.no_send rfl (.interpolated c) q
    exact ⟨fun _ ht => (by cases ht), fun _ _ ht => (by cases ht),
      fun c q hmem => absurd hmem (hnone c q)⟩
  | locate hpc hnow hi hprevious hcurrent htarget =>
    refine ⟨fun t ht => ?_, fun _ _ ht => (by cases ht), h.later rfl rfl rfl hnil (by simp)⟩
    rw [IndexOk, hpc] at hindex
    rw [CursorOk, hpc] at hcursor
    have hseg := (hindex.advanced hloaded.chain (hcursor _ hnow).1 hi).1 _ _ hprevious hcurrent
    cases ht
    exact ⟨hnow, (commands_of_interpolate hseg.1 htarget).later rfl rfl hsame⟩
  | read hpc =>
    refine ⟨fun t ht => ?_, fun _ _ ht => (by cases ht), h.later rfl rfl rfl rfl (by simp)⟩
    have htick := h.tick _ (by rw [hpc]; rfl)
    cases ht
    exact ⟨htick.1, htick.2.later rfl rfl hsame⟩
  | send hpc =>
    have htick := h.tick _ (by rw [hpc]; rfl)
    refine ⟨fun t ht => ?_, fun t m ht => ?_, h.later rfl rfl rfl rfl fun c q hmem => ?_⟩
    · cases ht
      exact ⟨htick.1, htick.2.later rfl rfl hsame⟩
    · cases ht
      exact List.getLast?_concat
    · cases List.mem_singleton.1 hmem
      exact htick.2
  | fail htry hcalls =>
    refine ⟨fun _ ht => (by cases ht), fun _ _ ht => (by cases ht),
      h.later rfl rfl rfl rfl fun c q hmem => ?_⟩
    rcases hcalls with rfl | ⟨call, hcall, rfl⟩
    · cases hmem
    · cases List.mem_singleton.1 hmem
      cases hpc : r.pc <;> rw [hpc] at hcall <;> cases hcall
      exact (h.tick _ (by rw [hpc]; rfl)).2
  | create | prepare | enable | sendLast | holdRead | holdFail | holdSend | close =>
    exact ⟨fun _ ht => (by cases ht), fun _ _ ht => (by cases ht),
      h.later rfl rfl rfl rfl (by simp)⟩
  | _ =>
    exact ⟨fun _ ht => (by cases ht), fun _ _ ht => (by cases ht),
      h.later rfl rfl rfl hnil (by simp)⟩

theorem CommandOk.extend {c : Chunk F} {message : Str} {receipts : Table ℤ (Str × Receipt)}
    (h : r.CommandOk) :
    { r.extend c with message := message, chunkReceipts := receipts }.CommandOk :=
  ⟨fun t ht => ⟨(h.tick t ht).1, (h.tick t ht).2.later rfl rfl rfl⟩, h.sent,
    fun c q hmem => (h.calls c q hmem).later rfl rfl rfl⟩

/-- Nothing of this depends on the other fields. -/
theorem CommandOk.congr (h : r.CommandOk) (hcfg : r'.toRunConfig = r.toRunConfig)
    (horigin : r'.originQ = r.originQ) (hpoints : r'.points = r.points) (hpc : r'.pc = r.pc)
    (hcalls : r'.calls = r.calls) : r'.CommandOk := by
  have hsame : r'.points = r.points ++ [] := hpoints.trans (List.append_nil _).symm
  refine ⟨fun t ht => ?_, fun t m ht => ?_, fun c q hmem => ?_⟩
  · rw [hpc] at ht
    exact ⟨(h.tick t ht).1, (h.tick t ht).2.later hcfg horigin hsame⟩
  · rw [hcalls]
    exact h.sent t m (hpc ▸ ht)
  · rw [hcalls] at hmem
    exact (h.calls c q hmem).later hcfg horigin hsame

theorem CommandOk.step [FloatRepr F] [Sha256] (h : r.CommandOk) (hstage : r.StageOk)
    (hbackend : r.BackendOk) (hloaded : r.Loaded) (hindex : r.IndexOk) (hcursor : r.CursorOk)
    {label : Label F} (hs : r.step label = some r') : r'.CommandOk := by
  refine step_induction hs h (fun _ _ _ _ => h.extend) (fun hstart => ?_)
    (fun _ _ => h.congr rfl rfl rfl rfl rfl) (fun _ => h.congr rfl rfl rfl rfl rfl) ?_
    (h.executed hbackend hloaded hindex hcursor)
  · obtain ⟨-, rfl⟩ := hstage.idle_of_start hstart
    exact ⟨fun _ ht => (by cases ht), fun _ _ ht => (by cases ht),
      h.later rfl rfl rfl (List.append_nil _).symm (by simp)⟩
  · unfold ProgramRun.connectionLost
    split
    · exact h.congr rfl rfl rfl rfl rfl
    · exact h.congr rfl rfl rfl rfl rfl
    · exact h

/-! ## The end of the buffer -/

omit [FloatTrunc F] in
theorem code_of_resolve {q : Pose F} {e : Raised F} (h : r.resolve q = .error e) :
    e.outcome.code = some .hardwareFault := by
  unfold resolve at h
  split at h <;> cases h
  rfl

omit [FloatTrunc F] in
theorem code_of_interpolate {a b : TrajectoryPoint F} {cursorUs : ℤ} {e : Raised F}
    (h : r.interpolate a b cursorUs = .error e) : e.outcome.code = some .hardwareFault := by
  unfold interpolate at h
  cases hv : (interpolateQuintic a b cursorUs : Except Exc (Pose F)) with
  | error x =>
    rw [hv] at h
    cases h
    rfl
  | ok v =>
    rw [hv] at h
    exact code_of_resolve h

omit [FloatTrunc F] in
theorem le_acceptedUntilUs (hchain : r.points.IsChain (SegmentOk r.policy)) {j : ℕ}
    {p : TrajectoryPoint F} (hp : r.points[j]? = some p) : p.tUs ≤ r.acceptedUntilUs := by
  have hj := (List.getElem?_eq_some_iff.1 hp).1
  have hlast := List.getLast?_eq_getElem? (l := r.points)
  unfold acceptedUntilUs
  cases hq : r.points.getLast? with
  | none =>
    rw [List.getLast?_eq_none_iff] at hq
    rw [hq] at hj
    cases hj
  | some q => exact tUs_le_of_chain hchain (by omega) hp (hlast.symm.trans hq)

/-- The three ways a tick looks for its segment: it finds that of its cursor, or the complete
program is over, or the buffer ran dry. -/
theorem locate_cases (hloaded : r.Loaded) (hindex : r.IndexOk) (hcursor : r.CursorOk) {l : Loop F}
    {now : F} {cursorUs : ℤ} (hpc : r.pc = .locate l now)
    (hnow : cursorAt l.started now = .ok cursorUs) :
    (cursorUs ≤ r.acceptedUntilUs ∧ ((∃ t, (r.locate l now).pc = .read t) ∨
      ∃ e, (r.locate l now).pc = .fault e ∧ e.outcome.code = some .hardwareFault)) ∨
    (r.finalReceived = true ∧ ((∃ q tUs, (r.locate l now).pc = .sendLast q tUs) ∨
      ∃ e, (r.locate l now).pc = .fault e ∧ e.outcome.code = some .hardwareFault)) ∨
    (r.acceptedUntilUs < cursorUs ∧ r.finalReceived = false ∧
      (r.locate l now).pc = .fault (underrun F)) := by
  rw [IndexOk, hpc] at hindex
  rw [CursorOk, hpc] at hcursor
  have hspec := hindex.advanced hloaded.chain (hcursor _ hnow).1 rfl
  unfold ProgramRun.locate
  rw [hnow]
  simp only [locateAt]
  generalize advance cursorUs (r.points.drop (l.segmentIndex + 1)) l.segmentIndex = i at *
  split
  · rename_i previous current hprevious hcurrent
    have hle := (hspec.1 _ _ hprevious hcurrent).2.2
    refine .inl ⟨hle.trans (le_acceptedUntilUs hloaded.chain hcurrent), ?_⟩
    split
    · rename_i e he
      exact .inr ⟨e, rfl, code_of_interpolate he⟩
    · exact .inl ⟨_, rfl⟩
  · rename_i hnot
    have hnone : r.points[i + 1]? = none := by
      by_contra hsome
      obtain ⟨b, hb⟩ := Option.ne_none_iff_exists'.1 hsome
      have hlt := (List.getElem?_eq_some_iff.1 hb).1
      exact hnot _ b (List.getElem?_eq_getElem (by omega)) hb
    have hpast := hspec.2 hnone
    unfold atEnd
    split_ifs with hfinal
    · refine .inr (.inl ⟨hfinal, ?_⟩)
      unfold acceptedUntilUs at hpast
      split
      · exact .inr ⟨_, rfl, rfl⟩
      · rename_i last hlast
        rw [hlast] at hpast
        rw [if_pos hpast.le]
        split
        · rename_i e he
          exact .inr ⟨e, rfl, code_of_resolve he⟩
        · exact .inl ⟨_, _, rfl⟩
    · exact .inr (.inr ⟨hpast, Bool.eq_false_iff.2 hfinal, rfl⟩)

theorem locate_underrun (hloaded : r.Loaded) (hindex : r.IndexOk) (hcursor : r.CursorOk)
    {l : Loop F} {now : F} {cursorUs : ℤ} (hpc : r.pc = .locate l now)
    (hnow : cursorAt l.started now = .ok cursorUs) :
    (r.locate l now).pc = .fault (underrun F) ↔
      r.acceptedUntilUs < cursorUs ∧ r.finalReceived = false := by
  have hother : ∀ e : Raised F, (r.locate l now).pc = .fault e →
      e.outcome.code = some .hardwareFault → (r.locate l now).pc ≠ .fault (underrun F) := by
    intro e he hcode hunder
    rw [he] at hunder
    cases hunder
    cases hcode
  rcases locate_cases hloaded hindex hcursor hpc hnow with ⟨hle, ⟨t, ht⟩ | ⟨e, he, hcode⟩⟩ |
    ⟨hfinal, ⟨q, tUs, ht⟩ | ⟨e, he, hcode⟩⟩ | ⟨hlt, hfinal, hunder⟩
  · rw [ht]
    exact ⟨fun h => (by cases h), fun h => absurd hle (not_le.2 h.1)⟩
  · exact ⟨fun h => absurd h (hother e he hcode), fun h => absurd hle (not_le.2 h.1)⟩
  · rw [ht]
    exact ⟨fun h => (by cases h), fun h => (by rw [hfinal] at h; cases h.2)⟩
  · exact ⟨fun h => absurd h (hother e he hcode), fun h => (by rw [hfinal] at h; cases h.2)⟩
  · exact ⟨fun _ => ⟨hlt, hfinal⟩, fun _ => hunder⟩

omit [FloatTrunc F] in
theorem not_fromLoop_of_startChecks {m : Pose F} {e : Raised F} (h : r.startChecks m = .error e) :
    ¬e.FromLoop := by
  unfold startChecks at h
  split at h
  · split at h
    · cases h
      rintro (hc | hc) <;> cases hc
    · obtain ⟨-, rfl⟩ := raiseWhen_eq_error.1 h
      rintro (hc | hc) <;> cases hc
  · obtain ⟨p, -, hp⟩ := exists_of_forM_eq_error h
    unfold validateResolvedPosition at hp
    split at hp
    · obtain ⟨j, -, hj⟩ := exists_of_forM_eq_error hp
      obtain ⟨-, rfl⟩ := raiseWhen_eq_error.1 hj
      rintro (hc | hc) <;> cases hc
    · cases hp

omit [FloatTrunc F] in
theorem not_fromLoop_of_capture {a : NdArray F} {e : Raised F} (h : (r.capture a).pc = .fault e) :
    ¬e.FromLoop := by
  unfold ProgramRun.capture at h
  split at h
  · cases h
    rintro (hc | hc) <;> cases hc
  · simp only at h
    split at h
    · rename_i hchecks
      cases h
      exact not_fromLoop_of_startChecks hchecks
    · cases h

/-- Where an exception comes from: the backend, the search of a tick, its supervision, or a check
with a code of its own. -/
theorem exec_faulted {act : Act F} {e : Raised F} (h : r.exec act = some r')
    (hpc' : r'.pc = .fault e) :
    act = .raised e ∨ (∃ l now, r.pc = .locate l now ∧ r' = r.locate l now) ∨
    (∃ t m, r.pc = .read t ∧ act = .pose m ∧ r' = (r.call .readQ).supervise t m) ∨
    ¬e.FromLoop := by
  have hread : ∀ {now : F} {f : ProgramRun F → ProgramRun F},
      (r.readClock now).map f = some r' → r' = f { r with clock := now } := by
    intro now f hf
    obtain ⟨_, hclock, rfl⟩ := Option.map_eq_some_iff.1 hf
    rw [(readClock_eq_some.1 hclock).2]
  unfold exec at h
  split at h <;> rename_i hpc
  -- what the backend raises is passed on
  case h_2 | h_4 | h_8 | h_16 | h_18 | h_23 =>
    cases h
    cases hpc'
    exact .inl rfl
  case h_14 =>
    cases h
    exact .inr (.inl ⟨_, _, hpc, rfl⟩)
  case h_15 =>
    cases h
    exact .inr (.inr (.inl ⟨_, _, hpc, rfl, rfl⟩))
  case h_5 =>
    cases h
    exact .inr (.inr (.inr (not_fromLoop_of_capture hpc')))
  -- the other exceptions of the code have codes of their own
  case h_6 =>
    cases h
    split at hpc' <;> cases hpc'
    exact .inr (.inr (.inr (by rintro (hc | hc) <;> cases hc)))
  case h_11 =>
    rw [hread h] at hpc'
    unfold beginLoop at hpc'
    simp only at hpc'
    split at hpc' <;> cases hpc'
    exact .inr (.inr (.inr (by rintro (hc | hc) <;> cases hc)))
  case h_12 =>
    rw [hread h] at hpc'
    unfold beginTick at hpc'
    split at hpc' <;> cases hpc'
  case h_13 =>
    cases h
    unfold checkHeartbeat at hpc'
    split at hpc' <;> cases hpc'
    exact .inr (.inr (.inr (by rintro (hc | hc) <;> cases hc)))
  case h_20 =>
    cases h
    unfold emitTelemetry at hpc'
    split at hpc' <;> cases hpc'
  case h_21 =>
    rw [hread h] at hpc'
    unfold endTick at hpc'
    simp only at hpc'
    split at hpc' <;> cases hpc'
    exact .inr (.inr (.inr (by rintro (hc | hc) <;> cases hc)))
  case h_26 | h_27 | h_28 => split_ifs at h <;> cases h <;> cases hpc'
  all_goals
    cases h
    try cases hpc'

/-- The code raises `BUFFER_UNDERRUN` in the search of a tick only. -/
theorem raised_of_underrun {act : Act F} {e : Raised F} (h : r.exec act = some r')
    (hpc' : r'.pc = .fault e) (hcode : e.outcome.code = some .bufferUnderrun) :
    act = .raised e ∨ ∃ l now, r.pc = .locate l now ∧ r' = r.locate l now := by
  rcases exec_faulted h hpc' with hact | hlocate | ⟨t, m, -, -, rfl⟩ | hnot
  · exact .inl hact
  · exact .inr hlocate
  · unfold supervise at hpc'
    simp only at hpc'
    split at hpc' <;> cases hpc'
    cases hcode
  · exact absurd (.inl hcode) hnot

omit [FloatTrunc F] in
theorem code_of_atEnd {cursorUs : ℤ} {e : Raised F} (h : (r.atEnd cursorUs).pc = .fault e) :
    e.outcome.code = some .hardwareFault ∨ e.outcome.code = some .bufferUnderrun := by
  unfold atEnd at h
  split at h
  · split at h
    · cases h
      exact .inl rfl
    · split at h
      · split at h
        · rename_i he
          cases h
          exact .inl (code_of_resolve he)
        · cases h
      · cases h
        exact .inr rfl
  · cases h
    exact .inr rfl

theorem code_of_locate {l : Loop F} {now : F} {e : Raised F} (h : (r.locate l now).pc = .fault e) :
    e.outcome.code = some .hardwareFault ∨ e.outcome.code = some .bufferUnderrun := by
  unfold ProgramRun.locate at h
  split at h
  · cases h
    exact .inl rfl
  · unfold locateAt at h
    simp only at h
    split at h
    · split at h
      · rename_i he
        cases h
        exact .inl (code_of_interpolate he)
      · cases h
    · exact code_of_atEnd h

/-- The code raises `TRACKING_ERROR` in the supervision of a tick only. -/
theorem raised_of_tracking {act : Act F} {e : Raised F} (h : r.exec act = some r')
    (hpc' : r'.pc = .fault e) (hcode : e.outcome.code = some .trackingError) :
    act = .raised e ∨
      ∃ t m, r.pc = .read t ∧ act = .pose m ∧ r' = (r.call .readQ).supervise t m := by
  rcases exec_faulted h hpc' with hact | ⟨l, now, -, rfl⟩ | hread | hnot
  · exact .inl hact
  · rcases code_of_locate hpc' with hc | hc <;> rw [hcode] at hc <;> cases hc
  · exact .inr hread
  · exact absurd (.inr hcode) hnot

/-! ## Runs -/

section Reachable

variable [FloatRepr F] [Sha256] [LawfulClock F]

/-- What is known of the trajectory of every run. -/
structure TrackOk (r : ProgramRun F) : Prop where
  run : r.RunOk
  cursor : r.CursorOk
  loaded : r.Loaded
  index : r.IndexOk
  command : r.CommandOk

omit [FloatRepr F] [Sha256] [LawfulClock F] in
theorem trackOk_init (cfg : RunConfig F) (now : F) : (init cfg now).TrackOk where
  run := runOk_init cfg now
  cursor := cursorOk_init cfg now
  loaded := loaded_init cfg now
  index := trivial
  command := ⟨fun _ ht => (by cases ht), fun _ _ ht => (by cases ht), fun _ _ ht => (by cases ht)⟩

theorem TrackOk.step (h : r.TrackOk) {label : Label F} (hs : r.step label = some r') :
    r'.TrackOk where
  run := h.run.step hs
  cursor := h.cursor.step h.run.stage hs
  loaded := h.loaded.step hs
  index := h.index.step h.run.stage h.loaded h.cursor hs
  command := h.command.step h.run.stage h.run.backend h.loaded h.index h.cursor hs

theorem trackOk_of_run {cfg : RunConfig F} {now : F} {ls : List (Label F)}
    (h : Transition.run step (init cfg now) ls = some r) : r.TrackOk :=
  Transition.run_invariant (fun _ _ _ hr hs => hr.step hs) h (trackOk_init cfg now)

omit [FloatRepr F] [Sha256] [LawfulClock F] in
/-- A search that ends the run for want of points does so before the final chunk. -/
theorem TrackOk.not_final_of_locate (h : r.TrackOk) {l : Loop F} {now : F}
    (hpc : r.pc = .locate l now) {e : Raised F} (he : (r.locate l now).pc = .fault e)
    (hcode : e.outcome.code = some .bufferUnderrun) : r.finalReceived = false := by
  cases hnow : cursorAt l.started now with
  | error x =>
    unfold ProgramRun.locate at he
    rw [hnow] at he
    cases he
    cases hcode
  | ok cursorUs =>
    rcases locate_cases h.loaded h.index h.cursor hpc hnow with
      ⟨-, ⟨t, ht⟩ | ⟨e', he', hcode'⟩⟩ | ⟨-, ⟨q, tUs, ht⟩ | ⟨e', he', hcode'⟩⟩ | ⟨-, hfinal, -⟩
    · rw [ht] at he
      cases he
    · rw [he'] at he
      cases he
      rw [hcode'] at hcode
      cases hcode
    · rw [ht] at he
      cases he
    · rw [he'] at he
      cases he
      rw [hcode'] at hcode
      cases hcode
    · exact hfinal

/-- No underrun was raised or reported. -/
structure NoUnderrun (r : ProgramRun F) : Prop where
  fault : ∀ e, r.pc = .fault e → e.outcome.code ≠ some .bufferUnderrun
  events : ∀ event ∈ r.events, event.faultCode? ≠ some .bufferUnderrun

omit [FloatRepr F] [Sha256] [LawfulClock F] in
theorem NoUnderrun.executed (h : r.NoUnderrun) (hx : Executed r r') :
    ∀ event ∈ r'.events, event.faultCode? ≠ some .bufferUnderrun := by
  cases hx with
  | announce | report =>
    intro event hevent
    rcases List.mem_append.1 hevent with hevent | hevent
    · exact h.events event hevent
    · cases List.mem_singleton.1 hevent
      exact fun hcode => by cases hcode
  | telemetry hpc hevents =>
    intro event hevent
    rcases List.mem_append.1 hevent with hevent | hevent
    · exact h.events event hevent
    · obtain ⟨_, _, _, _, rfl⟩ := hevents event hevent
      exact fun hcode => by cases hcode
  | @handle e hpc =>
    have hcode := h.fault e hpc
    intro event hevent
    rcases List.mem_append.1 hevent with hevent | hevent
    · exact h.events event hevent
    · cases List.mem_singleton.1 hevent
      show some (e.outcome.code.getD .hardwareFault) ≠ some .bufferUnderrun
      cases hc : e.outcome.code with
      | none => exact fun he => by cases he
      | some code =>
        rw [hc] at hcode
        exact hcode
  | _ => exact h.events

omit [LawfulClock F] in
theorem NoUnderrun.step (h : r.NoUnderrun) (htrack : r.TrackOk) (hsealed : r.runMode = .sealed)
    {label : Label F}
    (hlabel : ∀ e, label = .exec (.raised e) → e.outcome.code ≠ some .bufferUnderrun)
    (hs : r.step label = some r') : r'.NoUnderrun := by
  rcases step_cases hs with ⟨c, -, rfl⟩ | ⟨-, hstart | rfl⟩ | ⟨now, -, -, rfl⟩ | ⟨reason, -, rfl⟩ |
    ⟨-, rfl⟩ | ⟨act, rfl, hx⟩
  · rcases append_cases r c with he | ⟨-, message, receipts, he⟩ <;> rw [he]
    · exact h
    · exact ⟨h.fault, h.events⟩
  · obtain ⟨-, rfl⟩ := htrack.run.stage.idle_of_start hstart
    exact ⟨fun _ he => (by cases he), h.events⟩
  · exact h
  · exact ⟨h.fault, h.events⟩
  · exact ⟨h.fault, h.events⟩
  · unfold ProgramRun.connectionLost
    split <;> exact ⟨h.fault, h.events⟩
  · refine ⟨fun e he hcode => ?_, h.executed (exec_moved hx)⟩
    rcases raised_of_underrun hx he hcode with rfl | ⟨l, now, hpc, rfl⟩
    · exact hlabel e rfl hcode
    · have hfinal := htrack.loaded.sealed hsealed (by rw [hpc]; exact fun hidle => (by cases hidle))
      rw [htrack.not_final_of_locate hpc he hcode] at hfinal
      cases hfinal

/-- Every target of a tick is the value at its cursor of every program that begins with the
accepted points, and a tick that goes on has sent its target last.  A tick raises `BUFFER_UNDERRUN`
where its cursor is behind the accepted points and the final chunk is not among them; a sealed run
never does, and reports it only if the backend raised it. -/
theorem execute_tracks (cfg : RunConfig F) (now : F) (ls : List (Label F)) (s : ProgramRun F)
    (hs : Transition.run step (init cfg now) ls = some s) :
    (∀ cursorUs q, .sendQ (.interpolated cursorUs) q ∈ s.calls → s.Commands cursorUs q) ∧
    (∀ t m, s.pc = .publish t m → cursorAt t.started t.now = .ok t.cursorUs ∧
      s.calls.getLast? = some (.sendQ (.interpolated t.cursorUs) t.target)) ∧
    (∀ l now' cursorUs s', s.pc = .locate l now' → cursorAt l.started now' = .ok cursorUs →
      s.exec .internal = some s' → (s'.pc = .fault (underrun F) ↔
        s.acceptedUntilUs < cursorUs ∧ s.finalReceived = false)) ∧
    (s.runMode = .sealed →
      (∀ l now' s', s.pc = .locate l now' → s.exec .internal = some s' →
        s'.pc ≠ .fault (underrun F)) ∧
      ((∀ e, .exec (.raised e) ∈ ls → e.outcome.code ≠ some .bufferUnderrun) →
        ∀ event ∈ s.events, event.faultCode? ≠ some .bufferUnderrun)) := by
  have h := trackOk_of_run hs
  have hlocate : ∀ l now' s', s.pc = .locate l now' → s.exec .internal = some s' →
      s' = s.locate l now' := by
    intro l now' s' hpc hx
    unfold exec at hx
    rw [hpc] at hx
    exact (Option.some.inj hx).symm
  refine ⟨h.command.calls, fun t m hpc => ⟨(h.command.tick t (by rw [hpc]; rfl)).1,
    h.command.sent t m hpc⟩, fun l now' cursorUs s' hpc hnow hx => ?_, fun hsealed =>
    ⟨fun l now' s' hpc hx hunder => ?_, fun hlabels => ?_⟩⟩
  · rw [hlocate l now' s' hpc hx]
    exact locate_underrun h.loaded h.index h.cursor hpc hnow
  · rw [hlocate l now' s' hpc hx] at hunder
    have hfinal := h.loaded.sealed hsealed (by rw [hpc]; exact fun hidle => (by cases hidle))
    rw [h.not_final_of_locate hpc hunder rfl] at hfinal
    cases hfinal
  · have hmode : cfg.runMode = .sealed := by
      rw [← hsealed, config_of_reachable ⟨ls, hs⟩]
      rfl
    have hok : Transition.Along step (fun _ label => ∀ e, label = .exec (.raised e) →
        e.outcome.code ≠ some .bufferUnderrun) (init cfg now) ls :=
      Transition.along_of_forall fun label hmem e he => hlabels e (he ▸ hmem)
    have hinv := Transition.run_invariant_along
      (I := fun r => r.TrackOk ∧ r.runMode = .sealed ∧ r.NoUnderrun) ?_ hs hok
      ⟨trackOk_init cfg now, hmode, fun _ he => (by cases he), fun _ he => (by cases he)⟩
    · exact hinv.2.2.events
    · rintro r label r' ⟨htrack, hr, hno⟩ hlabel hstep
      refine ⟨htrack.step hstep, ?_, hno.step htrack hr hlabel hstep⟩
      rw [config_of_step hstep]
      exact hr

end Reachable

end ProgramRun

/-! ## A tick on the way -/

section Demo

open ProgramRun

local instance trajectoryHash : Sha256 := lengthHash

theorem exists_of_samples {cursorUs : ℤ} {s : ProgramRun ℚ}
    (h : s.calls.any (BackendCall.samples cursorUs) = true) :
    ∃ q, .sendQ (.interpolated cursorUs) q ∈ s.calls := by
  obtain ⟨c, hmem, hc⟩ := List.any_eq_true.1 h
  obtain ⟨q, rfl⟩ := BackendCall.samples_iff.1 hc
  exact ⟨q, hmem⟩

/-- The first chunk, and a tick in its only segment. -/
def demoFirst : List (ProgramRun.Label ℚ) :=
  demoArming (demoChunk 0 (demoPoints.take 2) false) ++ (demoTick (1 / 20)).dropLast

/-- The second chunk, and a tick in the segment it brought. -/
def demoSecond : List (ProgramRun.Label ℚ) :=
  [Label.exec .internal, .exec .internal, .exec (.clock (1 / 20)),
    .append (demoChunk 1 (demoPoints.drop 2) true), .heartbeat 2] ++ (demoTick (5 / 2)).dropLast

/-- The same tick without the chunk, up to the search for its segment. -/
def demoLate : List (ProgramRun.Label ℚ) :=
  [.exec .internal, .exec .internal, .exec (.clock (1 / 20)), .heartbeat 2, .exec (.clock (5 / 2)),
    .exec .internal]

/-- The executor publishes a target in this segment of this many points. -/
def publishes (segmentIndex points : ℕ) (s : ProgramRun ℚ) : Bool :=
  match s.pc with
  | .publish t _ => decide (t.segmentIndex = segmentIndex ∧ s.points.length = points)
  | _ => false

/-- The executor looks for a cursor behind its points. -/
def overtaken (cursorUs : ℤ) (s : ProgramRun ℚ) : Bool :=
  match s.pc with
  | .locate l now => decide ((cursorAt l.started now).toOption = some cursorUs ∧
      s.acceptedUntilUs < cursorUs ∧ s.finalReceived = false ∧ (s.exec .internal).isSome = true)
  | _ => false

theorem overtaken_iff {cursorUs : ℤ} {s : ProgramRun ℚ} (h : overtaken cursorUs s = true) :
    ∃ l now s', s.pc = .locate l now ∧ cursorAt l.started now = .ok cursorUs ∧
      s.exec .internal = some s' ∧ s.acceptedUntilUs < cursorUs ∧ s.finalReceived = false := by
  unfold overtaken at h
  split at h
  · rename_i l now hpc
    obtain ⟨hcursor, hlt, hfinal, hexec⟩ := of_decide_eq_true h
    obtain ⟨s', hs'⟩ := Option.isSome_iff_exists.1 hexec
    exact ⟨l, now, s', hpc, toOption_eq_some.1 hcursor, hs', hlt, hfinal⟩
  · cases h

/-- A streamed run whose index follows its growing points, what it does when they do not come in
time, and a sealed run. -/
theorem execute_tracks_demo :
    (∃ s s', Transition.run step (init (demoConfig .streaming demoDigest) 0) demoFirst = some s ∧
      publishes 0 2 s = true ∧ (∃ q, .sendQ (.interpolated 50000) q ∈ s.calls ∧ s.Commands 50000 q) ∧
      Transition.run step (init (demoConfig .streaming demoDigest) 0) (demoFirst ++ demoSecond) =
        some s' ∧
      publishes 1 3 s' = true ∧
        ∃ q, .sendQ (.interpolated 2500000) q ∈ s'.calls ∧ s'.Commands 2500000 q) ∧
    (∃ s s', Transition.run step (init (demoConfig .streaming demoDigest) 0) (demoFirst ++ demoLate) =
      some s ∧ s.exec .internal = some s' ∧ s'.pc = .fault (underrun ℚ)) ∧
    ∃ s, Transition.run step (init (demoConfig .sealed demoDigest) 0)
        (demoArming (demoChunk 0 demoPoints true) ++ demoTick 1) = some s ∧
      ∀ event ∈ s.events, event.faultCode? ≠ some .bufferUnderrun := by
  refine ⟨?_, ?_, ?_⟩
  · have hfirst : (Transition.run step (init (demoConfig .streaming demoDigest) 0) demoFirst).any
        (fun s => publishes 0 2 s && s.calls.any (BackendCall.samples 50000)) = true := by
      decide +kernel
    have hsecond : (Transition.run step (init (demoConfig .streaming demoDigest) 0)
        (demoFirst ++ demoSecond)).any
        (fun s => publishes 1 3 s && s.calls.any (BackendCall.samples 2500000)) = true := by
      decide +kernel
    obtain ⟨s, hs, h⟩ := (Option.any_eq_true _ _).1 hfirst
    obtain ⟨s', hs', h'⟩ := (Option.any_eq_true _ _).1 hsecond
    obtain ⟨hpublish, hcalls⟩ := Bool.and_eq_true_iff.1 h
    obtain ⟨hpublish', hcalls'⟩ := Bool.and_eq_true_iff.1 h'
    have hcommands := (execute_tracks (demoConfig .streaming demoDigest) 0 _ s hs).1
    have hcommands' := (execute_tracks (demoConfig .streaming demoDigest) 0 _ s' hs').1
    obtain ⟨q, hq⟩ := exists_of_samples hcalls
    obtain ⟨q', hq'⟩ := exists_of_samples hcalls'
    exact ⟨s, s', hs, hpublish, ⟨q, hq, hcommands _ q hq⟩, hs', hpublish', q', hq',
      hcommands' _ q' hq'⟩
  · have hlate : (Transition.run step (init (demoConfig .streaming demoDigest) 0)
        (demoFirst ++ demoLate)).any (overtaken 2500000) = true := by decide +kernel
    obtain ⟨s, hs, h⟩ := (Option.any_eq_true _ _).1 hlate
    obtain ⟨l, now, s', hpc, hcursor, hexec, hbehind⟩ := overtaken_iff h
    obtain ⟨-, -, hunder, -⟩ := execute_tracks (demoConfig .streaming demoDigest) 0 _ s hs
    exact ⟨s, s', hs, hexec, (hunder l now _ s' hpc hcursor hexec).2 hbehind⟩
  · have hsealed : (Transition.run step (init (demoConfig .sealed demoDigest) 0)
        (demoArming (demoChunk 0 demoPoints true) ++ demoTick 1)).any
        (fun s => decide (s.runMode = .sealed)) = true := by decide +kernel
    obtain ⟨s, hs, h⟩ := (Option.any_eq_true _ _).1 hsealed
    obtain ⟨-, -, -, hunder⟩ := execute_tracks (demoConfig .sealed demoDigest) 0 _ s hs
    refine ⟨s, hs, (hunder (of_decide_eq_true h)).2 fun e he => ?_⟩
    simp [demoArming, demoTick] at he

end Demo

end RemoteRobot.Stream
