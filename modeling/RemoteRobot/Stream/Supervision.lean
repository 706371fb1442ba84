import Mathlib.Data.List.TakeWhile
import RemoteRobot.Stream.Stopping
import RemoteRobot.Stream.Trajectory

/-!
# The supervision of tracking

A tick of `_execute` compares its target with the pose it reads and counts the ticks in a row in
which the body, or the gripper where it has a limit, is too far away.  The fifth in a row raises
`TRACKING_ERROR` before that tick sends anything.  Where the gripper has no limit the comparison
does not see it, and two executions that read the same bodies send the same targets.
-/

namespace RemoteRobot.Stream

open Py Except

variable {F : Type}

/-! ## The end of a list -/

section Streak

variable {α : Type*} {p : α → Bool} {xs : List α}

/-- How many elements in a row at the end of a list satisfy `p`. -/
def streak (p : α → Bool) (xs : List α) : ℕ := (xs.reverse.takeWhile p).length

theorem streak_concat (x : α) :
    streak p (xs ++ [x]) = if p x = true then streak p xs + 1 else 0 := by
  unfold streak
  rw [List.reverse_append, List.reverse_singleton, List.singleton_append, List.takeWhile_cons]
  split_ifs <;> rfl

theorem le_streak_iff {n : ℕ} : n ≤ streak p xs ↔
    ∃ before last, xs = before ++ last ∧ last.length = n ∧ ∀ x ∈ last, p x = true := by
  constructor
  · intro h
    refine ⟨xs.take (xs.length - n), xs.drop (xs.length - n), (List.take_append_drop _ _).symm,
      ?_, fun x hx => ?_⟩
    · have hle : streak p xs ≤ xs.length := by
        simpa [streak] using (List.takeWhile_prefix p (l := xs.reverse)).length_le
      rw [List.length_drop]
      omega
    · have hpre : xs.reverse.take n <+: xs.reverse.takeWhile p :=
        List.prefix_of_prefix_length_le (List.take_prefix _ _) (List.takeWhile_prefix p)
          (by rw [List.length_take]; exact (Nat.min_le_left _ _).trans h)
      have hmem : x ∈ xs.reverse.take n := by
        rw [List.take_reverse]
        exact List.mem_reverse.2 hx
      exact List.mem_takeWhile_imp (hpre.subset hmem)
  · rintro ⟨before, last, rfl, rfl, hlast⟩
    unfold streak
    rw [List.reverse_append, List.takeWhile_append_of_pos fun x hx => hlast x (List.mem_reverse.1 hx),
      List.length_append, List.length_reverse]
    exact Nat.le_add_right _ _

end Streak

/-- A target sent to the motors, with the tick it belongs to; not that of the hold. -/
def BackendCall.command? : BackendCall F → Option (Purpose × Pose F)
  | .sendQ .hold _ => none
  | .sendQ purpose q => some (purpose, q)
  | _ => none

/-- Where the threads of two executions stand that differ in what they measured. -/
inductive Pc.Alike : Pc F → Pc F → Prop
  | refl (pc : Pc F) : Alike pc pc
  | send (t : Tick F) (m m' : Pose F) : Alike (.send t m) (.send t m')
  | publish (t : Tick F) (m m' : Pose F) : Alike (.publish t m) (.publish t m')
  | telemetry (t : Tick F) (m m' : Pose F) (acceptedUntil : ℤ) :
      Alike (.telemetry t m acceptedUntil) (.telemetry t m' acceptedUntil)
  | holdSend (o : Outcome) (m m' : Pose F) : Alike (.holdSend o m) (.holdSend o m')
  | fault {e e' : Raised F} (h : e'.outcome = e.outcome) : Alike (.fault e) (.fault e')

theorem Pc.Alike.symm {pc pc' : Pc F} (h : pc.Alike pc') : pc'.Alike pc := by
  cases h with
  | refl => exact .refl pc
  | send t m m' => exact .send t m' m
  | publish t m m' => exact .publish t m' m
  | telemetry t m m' acceptedUntil => exact .telemetry t m' m acceptedUntil
  | holdSend o m m' => exact .holdSend o m' m
  | fault h => exact .fault h.symm

section Supervise

variable [PyFloat F]

/-- The largest deviation of the body exceeds `tracking_error_deg`, or that of the gripper its
limit, where there is one. -/
def TooFar (policy : SafetyPolicy F) (target measured : Pose F) : Prop :=
  PyFloat.lt policy.trackingErrorDeg (trackingError target measured) = true ∨
    ∃ limit, policy.gripperTrackingErrorPct = some limit ∧
      PyFloat.lt limit (deviation target measured .gripper) = true

/-- The last five comparisons all came out too far. -/
def FiveTooFar (policy : SafetyPolicy F) (comparisons : List (Pose F × Pose F)) : Prop :=
  ∃ before last, comparisons = before ++ last ∧ last.length = 5 ∧
    ∀ c ∈ last, TooFar policy c.1 c.2

/-- The body alone decides how far it is away. -/
theorem trackingError_congr {target q q' : Pose F} (h : ∀ j ∈ bodyJoints, q' j = q j) :
    trackingError target q' = trackingError target q := by
  simp only [bodyJoints, List.forall_mem_cons] at h
  obtain ⟨h₁, h₂, h₃, h₄, h₅, -⟩ := h
  simp only [trackingError, maxOver, deviation, bodyJoints, List.tail_cons, List.foldl_cons,
    List.foldl_nil, h₁, h₂, h₃, h₄, h₅]

namespace ProgramRun

variable {r r' : ProgramRun F}

theorem trackingExceeded_iff {target measured : Pose F} :
    r.trackingExceeded target measured = true ↔ TooFar r.policy target measured := by
  unfold trackingExceeded TooFar
  cases r.policy.gripperTrackingErrorPct <;> simp

/-! ## The comparisons of a run -/

/-- The target and the measured pose a step compares. -/
def comparison (r : ProgramRun F) : Label F → Option (Pose F × Pose F)
  | .exec (.pose measured) => match r.pc with
    | .read t => some (t.target, measured)
    | _ => none
  | _ => none

omit [PyFloat F] in
theorem comparison_eq_some {l : Label F} {c : Pose F × Pose F} : r.comparison l = some c ↔
    ∃ t m, l = .exec (.pose m) ∧ r.pc = .read t ∧ c = (t.target, m) := by
  constructor
  · intro h
    unfold comparison at h
    split at h
    · split at h
      · rename_i m _ t hpc
        cases h
        exact ⟨t, m, rfl, hpc, rfl⟩
      · cases h
    · cases h
  · rintro ⟨t, m, rfl, hpc, rfl⟩
    simp only [comparison, hpc]

omit [PyFloat F] in
theorem comparison_eq_none {l : Label F} (h : ∀ t m, l = .exec (.pose m) → r.pc ≠ .read t) :
    r.comparison l = none := by
  cases hc : r.comparison l with
  | none => rfl
  | some c =>
    obtain ⟨t, m, hl, hpc, -⟩ := comparison_eq_some.1 hc
    exact absurd hpc (h t m hl)

/-- The supervision faults at the fifth violation in a row, or the target goes out. -/
theorem supervise_cases (r : ProgramRun F) (t : Tick F) (m : Pose F) :
    5 ≤ r.trackViolations t m ∧
      (∃ e, r.supervise t m = r.fail e ∧ e.outcome.code = some .trackingError) ∨
    r.trackViolations t m < 5 ∧ r.supervise t m =
      { r with pc := .send { t with trackingViolations := r.trackViolations t m } m } := by
  unfold supervise
  by_cases hfive : 5 ≤ r.trackViolations t m
  · simp only [if_pos hfive]
    exact .inl ⟨hfive, _, rfl, rfl⟩
  · simp only [if_neg hfive]
    exact .inr ⟨not_le.1 hfive, trivial⟩

variable [FloatTrunc F] [FloatRepr F] [Sha256]

/-- The comparisons along the steps `ls`, one for each tick that reads. -/
def comparisons : ProgramRun F → List (Label F) → List (Pose F × Pose F)
  | _, [] => []
  | r, l :: ls => (r.comparison l).toList ++ match r.step l with
    | some r' => comparisons r' ls
    | none => []

theorem comparisons_append {ls ls' : List (Label F)} (hrun : Transition.run step r ls = some r') :
    r.comparisons (ls ++ ls') = r.comparisons ls ++ r'.comparisons ls' := by
  induction ls generalizing r with
  | nil =>
    cases hrun
    rfl
  | cons l ls ih =>
    obtain ⟨m, hm, hrest⟩ := Transition.run_cons_eq_some.1 hrun
    rw [List.cons_append, comparisons, comparisons, hm]
    simp only [ih hrest, List.append_assoc]

/-- The step raises `TRACKING_ERROR`, not the backend. -/
def RaisesTracking (r : ProgramRun F) (l : Label F) : Prop :=
  ∃ act e r', l = .exec act ∧ (∀ x, act ≠ .raised x) ∧ r.step l = some r' ∧ r'.pc = .fault e ∧
    e.outcome.code = some .trackingError

omit [FloatTrunc F] [FloatRepr F] [Sha256] in
/-- The violations in a row behind these comparisons. -/
def violations (r : ProgramRun F) (comparisons : List (Pose F × Pose F)) : ℕ :=
  streak (fun c => r.trackingExceeded c.1 c.2) comparisons

omit [FloatTrunc F] [FloatRepr F] [Sha256] in
theorem violations_congr (h : r'.toRunConfig = r.toRunConfig) : r'.violations = r.violations := by
  unfold violations trackingExceeded
  rw [h]

omit [FloatTrunc F] [FloatRepr F] [Sha256] in
theorem five_le_violations {cs : List (Pose F × Pose F)} :
    5 ≤ r.violations cs ↔ FiveTooFar r.policy cs := by
  unfold violations FiveTooFar
  simp only [le_streak_iff, trackingExceeded_iff]

/-! ## The count of a run -/

omit [FloatTrunc F] [FloatRepr F] [Sha256] in
/-- What the loop knows of the comparisons so far: their count, and that each sent its target,
except the one whose target is next. -/
def CountOk (r : ProgramRun F) (cs : List (Pose F × Pose F)) : Prop := match r.pc with
  | .tick l | .heartbeatCheck l _ | .locate l _ | .pace l =>
    l.trackingViolations = r.violations cs ∧ r.targets = cs.map Prod.fst
  | .read t | .publish t _ | .telemetry t _ _ =>
    t.trackingViolations = r.violations cs ∧ r.targets = cs.map Prod.fst
  | .send t _ =>
    t.trackingViolations = r.violations cs ∧ r.targets ++ [t.target] = cs.map Prod.fst
  | .sendLast _ _ | .publishLast _ | .fault _ | .hold _ | .holdSend _ _ | .close _ | .finish _
  | .signal _ | .report _ | .done => True
  | _ => cs = [] ∧ r.targets = []

omit [FloatTrunc F] [FloatRepr F] [Sha256] in
/-- The fifth violation in a row did not happen yet. -/
def Quiet (r : ProgramRun F) (cs : List (Pose F × Pose F)) : Prop :=
  r.pc.stage ≠ .leaving → r.pc.stage ≠ .left → ∀ before, before <+: cs → r.violations before < 5

omit [FloatRepr F] [Sha256] in
theorem CountOk.executed {cs : List (Pose F × Pose F)} (h : r.CountOk cs) (hx : Executed r r')
    (hbegin : r.pc ≠ .begin) (hread : ∀ t, r.pc ≠ .read t) : r'.CountOk cs := by
  unfold CountOk at h ⊢
  cases hx with
  | begin hpc => exact absurd hpc hbegin
  | read hpc => exact absurd hpc (hread _)
  | create hpc | prepare hpc | enable hpc =>
    rw [hpc] at h
    exact ⟨h.1, (targets_append rfl).trans (by rw [h.2]; rfl)⟩
  | send hpc =>
    rw [hpc] at h
    exact ⟨h.1, (targets_append rfl).trans h.2⟩
  | capture hpc | pass hpc | setRunning hpc | announce hpc | tick hpc | alive hpc | locate hpc
  | publish hpc | telemetry hpc | pace hpc =>
    rw [hpc] at h
    exact h
  | _ => trivial

omit [FloatTrunc F] [FloatRepr F] [Sha256] in
/-- The supervision adds its comparison to the count. -/
theorem CountOk.supervise {cs : List (Pose F × Pose F)} {t : Tick F} {m : Pose F}
    (h : r.CountOk cs) (hpc : r.pc = .read t) :
    r.trackViolations t m = r.violations (cs ++ [(t.target, m)]) ∧
    ((r.call .readQ).supervise t m).CountOk (cs ++ [(t.target, m)]) := by
  unfold CountOk at h
  rw [hpc] at h
  have hcount : r.trackViolations t m = r.violations (cs ++ [(t.target, m)]) := by
    unfold trackViolations violations
    rw [streak_concat, h.1]
    rfl
  refine ⟨hcount, ?_⟩
  rcases supervise_cases (r.call .readQ) t m with ⟨-, e, he, -⟩ | ⟨-, he⟩
  · unfold CountOk
    rw [he]
    trivial
  · rw [he]
    refine ⟨hcount, ?_⟩
    show (r.call .readQ).targets ++ [t.target] = _
    rw [targets_append rfl, h.2, List.map_append]
    simp [BackendCall.target?]

omit [FloatRepr F] [Sha256] in
theorem CountOk.exec {cs : List (Pose F × Pose F)} {act : Act F} (h : r.CountOk cs)
    (hx : r.exec act = some r') : r'.CountOk (cs ++ (r.comparison (.exec act)).toList) := by
  by_cases hbegin : r.pc = .begin
  · unfold CountOk at h
    rw [hbegin] at h
    obtain ⟨rfl, htargets⟩ := h
    unfold ProgramRun.exec at hx
    rw [hbegin] at hx
    cases act <;> try cases hx
    obtain ⟨_, hread, rfl⟩ := Option.map_eq_some_iff.1 hx
    obtain ⟨-, rfl⟩ := readClock_eq_some.1 hread
    unfold beginLoop
    simp only
    split
    · trivial
    · exact ⟨rfl, htargets⟩
  by_cases hread : ∃ t, r.pc = .read t
  · obtain ⟨t, hpc⟩ := hread
    unfold ProgramRun.exec at hx
    rw [hpc] at hx
    cases act <;> cases hx
    · rw [comparison_eq_some.2 ⟨t, _, rfl, hpc, rfl⟩]
      exact (h.supervise hpc).2
    · trivial
  · rw [comparison_eq_none fun t _ _ hpc => hread ⟨t, hpc⟩, Option.toList_none, List.append_nil]
    exact h.executed (exec_moved hx) hbegin (not_exists.1 hread)

/-- The count of a run that may still raise `TRACKING_ERROR`. -/
structure Counted (r : ProgramRun F) (cs : List (Pose F × Pose F)) : Prop where
  stage : r.StageOk
  count : r.CountOk cs
  quiet : r.Quiet cs

theorem Counted.call {cs : List (Pose F × Pose F)} (h : r.Counted cs) {l : Label F}
    (hl : ∀ act, l ≠ .exec act) (hs : r.step l = some r') : r'.Counted cs := by
  have hviolations := violations_congr (config_of_step hs)
  have hstage := h.stage.step hs
  obtain ⟨hcalls, hpc | hstart⟩ := calls_of_call hs hl
  · have htargets : r'.targets = r.targets := congrArg (List.filterMap BackendCall.target?) hcalls
    refine ⟨hstage, ?_, ?_⟩
    · have hcount := h.count
      unfold CountOk at hcount ⊢
      rw [hpc, htargets, hviolations]
      exact hcount
    · have hquiet := h.quiet
      unfold Quiet at hquiet ⊢
      rw [hpc, hviolations]
      exact hquiet
  · obtain ⟨hidle, rfl⟩ := h.stage.idle_of_start hstart
    have hcount := h.count
    have hquiet := h.quiet
    unfold CountOk at hcount
    unfold Quiet at hquiet
    rw [hidle] at hcount hquiet
    exact ⟨hstage, hcount, fun _ _ => hquiet (fun hs => by cases hs) (fun hs => by cases hs)⟩

omit [FloatRepr F] [Sha256] in
theorem Quiet.exec {cs : List (Pose F × Pose F)} {act : Act F} (h : r.Quiet cs)
    (hcount : r.CountOk cs) (hx : r.exec act = some r') :
    r'.Quiet (cs ++ (r.comparison (.exec act)).toList) := by
  intro hleaving hleft
  have hkeep := (exec_moved hx).targets_leaving
  rw [violations_congr (exec_moved hx).frame.1]
  have hbefore : ∀ before, before <+: cs → r.violations before < 5 :=
    h (fun hs => (hkeep (.inl hs)).2.elim hleaving hleft)
      (fun hs => (hkeep (.inr hs)).2.elim hleaving hleft)
  cases hc : r.comparison (.exec act) with
  | none =>
    rw [Option.toList_none, List.append_nil]
    exact hbefore
  | some c =>
    obtain ⟨t, m, hact, hpc, rfl⟩ := comparison_eq_some.1 hc
    cases hact
    have hsupervise : r' = (r.call .readQ).supervise t m := by
      unfold ProgramRun.exec at hx
      rw [hpc] at hx
      exact (Option.some.inj hx).symm
    intro before hpre
    rcases List.prefix_concat_iff.1 hpre with rfl | hpre
    · rw [← (hcount.supervise hpc).1]
      rcases supervise_cases (r.call .readQ) t m with ⟨-, e, he, -⟩ | ⟨hfew, -⟩
      · exact absurd (by rw [hsupervise, he]; rfl) hleaving
      · exact hfew
    · exact hbefore before hpre

theorem Counted.step {cs : List (Pose F × Pose F)} (h : r.Counted cs) {l : Label F}
    (hs : r.step l = some r') : r'.Counted (cs ++ (r.comparison l).toList) := by
  by_cases hl : ∃ act, l = .exec act
  · obtain ⟨act, rfl⟩ := hl
    exact ⟨h.stage.step hs, h.count.exec hs, h.quiet.exec h.count hs⟩
  · rw [comparison_eq_none fun _ m hact => absurd ⟨.pose m, hact⟩ hl, Option.toList_none,
      List.append_nil]
    exact h.call (not_exists.1 hl) hs

theorem counted_of_run {cs : List (Pose F × Pose F)} {ls : List (Label F)} (h : r.Counted cs)
    (hrun : Transition.run step r ls = some r') : r'.Counted (cs ++ r.comparisons ls) := by
  induction ls generalizing r cs with
  | nil =>
    cases hrun
    rw [comparisons, List.append_nil]
    exact h
  | cons l ls ih =>
    obtain ⟨m, hm, hrest⟩ := Transition.run_cons_eq_some.1 hrun
    rw [comparisons, hm, ← List.append_assoc]
    exact ih (h.step hm) hrest

omit [FloatTrunc F] [FloatRepr F] [Sha256] in
theorem counted_init (cfg : RunConfig F) (now : F) : (init cfg now).Counted [] := by
  refine ⟨stageOk_init cfg now, ⟨rfl, rfl⟩, fun _ _ before hpre => ?_⟩
  rw [List.prefix_nil.1 hpre]
  exact Nat.zero_lt_succ 4

/-- The step raises where its comparison is the fifth violation in a row. -/
theorem CountOk.raisesTracking_iff {cs : List (Pose F × Pose F)} (h : r.CountOk cs) (l : Label F) :
    r.RaisesTracking l ↔
      (∃ c, r.comparison l = some c ∧ 5 ≤ r.violations (cs ++ [c])) := by
  constructor
  · rintro ⟨act, e, r', rfl, hact, hs, hpc', hcode⟩
    rcases raised_of_tracking hs hpc' hcode with rfl | ⟨t, m, hpc, rfl, rfl⟩
    · exact absurd rfl (hact e)
    · refine ⟨(t.target, m), comparison_eq_some.2 ⟨t, m, rfl, hpc, rfl⟩, ?_⟩
      rw [← (h.supervise hpc).1]
      rcases supervise_cases (r.call .readQ) t m with ⟨hfive, -⟩ | ⟨-, he⟩
      · exact hfive
      · rw [he] at hpc'
        cases hpc'
  · rintro ⟨c, hc, hfive⟩
    obtain ⟨t, m, rfl, hpc, rfl⟩ := comparison_eq_some.1 hc
    rw [← (h.supervise hpc).1] at hfive
    have hexec : r.exec (.pose m) = some ((r.call .readQ).supervise t m) := by
      unfold ProgramRun.exec
      rw [hpc]
    rcases supervise_cases (r.call .readQ) t m with ⟨-, e, he, hcode⟩ | ⟨hfew, -⟩
    · exact ⟨.pose m, e, _, rfl, fun x hx => (by cases hx), hexec, by rw [he]; rfl, hcode⟩
    · exact absurd hfew (not_lt.2 hfive)

/-! ## Two executions -/

omit [FloatTrunc F] [FloatRepr F] [Sha256] [PyFloat F] in
/-- The same answer, or poses of the same body. -/
inductive SameBody : Label F → Label F → Prop
  | refl (l : Label F) : SameBody l l
  | pose {q q' : Pose F} (h : ∀ j ∈ bodyJoints, q' j = q j) :
      SameBody (.exec (.pose q)) (.exec (.pose q'))

omit [FloatTrunc F] [FloatRepr F] [Sha256] [PyFloat F] in
theorem SameBody.symm {l l' : Label F} (h : SameBody l l') : SameBody l' l := by
  cases h with
  | refl => exact .refl l
  | pose h => exact .pose fun j hj => (h j hj).symm

omit [FloatTrunc F] [FloatRepr F] [Sha256] [PyFloat F] in
/-- The targets sent so far, each with its tick. -/
def commands (r : ProgramRun F) : List (Purpose × Pose F) := r.calls.filterMap BackendCall.command?

omit [FloatTrunc F] [FloatRepr F] [Sha256] [PyFloat F] in
/-- Two runs that differ in what was measured, and in the histories by that only. -/
inductive Alike (r : ProgramRun F) : ProgramRun F → Prop
  | intro {measuredQ : Option (Pose F)} {pc : Pc F} {calls : List (BackendCall F)}
      {events : List (Event F)} (hpc : r.pc.Alike pc)
      (hcommands : calls.filterMap BackendCall.command? = r.commands) :
      Alike r { r with measuredQ, pc, calls, events }

omit [FloatTrunc F] [FloatRepr F] [Sha256] [PyFloat F] in
theorem Alike.refl (r : ProgramRun F) : r.Alike r := .intro (.refl _) rfl

section Alike

variable {r₂ : ProgramRun F}

omit [FloatTrunc F] [FloatRepr F] [Sha256] [PyFloat F] in
theorem Alike.symm (h : r.Alike r₂) : r₂.Alike r := by
  cases h with
  | intro hpc hcommands => exact Alike.intro hpc.symm hcommands.symm

omit [FloatTrunc F] [FloatRepr F] [Sha256] [PyFloat F] in
theorem Alike.commands (h : r.Alike r₂) : r₂.commands = r.commands := by
  cases h with
  | intro _ hcommands => exact hcommands

omit [FloatTrunc F] [FloatRepr F] [Sha256] [PyFloat F] in
theorem Alike.moveTo (h : r.Alike r₂) {pc pc₂ : Pc F} (hpc : pc.Alike pc₂) :
    { r with pc := pc }.Alike { r₂ with pc := pc₂ } := by
  cases h with
  | intro _ hcommands => exact .intro hpc hcommands

omit [FloatTrunc F] [FloatRepr F] [Sha256] [PyFloat F] in
theorem commands_call (h : r₂.commands = r.commands) {c c₂ : BackendCall F}
    (hc : c₂.command? = c.command?) : (r₂.call c₂).commands = (r.call c).commands := by
  unfold ProgramRun.commands at h ⊢
  unfold call
  rw [List.filterMap_append, List.filterMap_append, h]
  simp only [List.filterMap_cons, List.filterMap_nil, hc]

omit [FloatTrunc F] [FloatRepr F] [Sha256] [PyFloat F] in
theorem Alike.fail (h : r.Alike r₂) (e : Raised F) : (r.fail e).Alike (r₂.fail e) :=
  h.moveTo (.refl _)

omit [FloatTrunc F] [FloatRepr F] [Sha256] [PyFloat F] in
theorem Alike.call (h : r.Alike r₂) (c : BackendCall F) : (r.call c).Alike (r₂.call c) := by
  have hcall := commands_call h.commands (c := c) rfl
  cases h with
  | intro hpc => exact .intro hpc hcall

omit [FloatTrunc F] [FloatRepr F] [Sha256] in
theorem Alike.startChecks (h : r.Alike r₂) (m : Pose F) : r₂.startChecks m = r.startChecks m := by
  cases h with
  | intro hpc hcommands => rfl

omit [FloatTrunc F] [FloatRepr F] [Sha256] in
theorem Alike.capture (h : r.Alike r₂) (a : NdArray F) : (r.capture a).Alike (r₂.capture a) := by
  unfold ProgramRun.capture
  split
  · exact h.fail _
  · rename_i m _
    have hcaptured : { r with originQ := some m, measuredQ := some m }.Alike
        { r₂ with originQ := some m, measuredQ := some m } := by
      cases h with
      | intro hpc hcommands => exact .intro hpc hcommands
    simp only [hcaptured.startChecks]
    split
    · exact hcaptured.fail _
    · exact hcaptured.moveTo (.refl _)

omit [FloatTrunc F] [FloatRepr F] [Sha256] in
theorem Alike.readClock (h : r.Alike r₂) {f f₂ : ProgramRun F → ProgramRun F} {now : F}
    (hf : ∀ {s s₂}, Alike s s₂ → (f s).Alike (f₂ s₂))
    (hx : (r.readClock now).map f = some r') :
    ∃ r₂', (r₂.readClock now).map f₂ = some r₂' ∧ r'.Alike r₂' := by
  obtain ⟨_, hread, rfl⟩ := Option.map_eq_some_iff.1 hx
  obtain ⟨hclock, rfl⟩ := readClock_eq_some.1 hread
  cases h with
  | intro hpc hcommands =>
    exact ⟨_, Option.map_eq_some_iff.2 ⟨_, readClock_eq_some.2 ⟨hclock, rfl⟩, rfl⟩,
      hf (.intro hpc hcommands)⟩

omit [FloatTrunc F] [FloatRepr F] [Sha256] in
theorem Alike.beginLoop (h : r.Alike r₂) (now : F) :
    (r.beginLoop now).Alike (r₂.beginLoop now) := by
  cases h with
  | intro hpc hcommands =>
    unfold ProgramRun.beginLoop
    simp only
    split <;> exact .intro (.refl _) hcommands

omit [FloatTrunc F] [FloatRepr F] [Sha256] [PyFloat F] in
theorem Alike.beginTick (h : r.Alike r₂) (l : Loop F) (now : F) :
    (r.beginTick l now).Alike (r₂.beginTick l now) := by
  cases h with
  | intro hpc hcommands =>
    unfold ProgramRun.beginTick
    simp only
    split <;> exact .intro (.refl _) hcommands

omit [FloatTrunc F] [FloatRepr F] [Sha256] in
theorem Alike.checkHeartbeat (h : r.Alike r₂) (l : Loop F) (now : F) :
    (r.checkHeartbeat l now).Alike (r₂.checkHeartbeat l now) := by
  have hignore : r₂.ignoreHeartbeat = r.ignoreHeartbeat := by
    cases h with
    | intro => rfl
  have hexpired : r₂.heartbeatExpired now = r.heartbeatExpired now := by
    cases h with
    | intro => rfl
  unfold ProgramRun.checkHeartbeat
  simp only [hignore, hexpired]
  split_ifs
  · exact h.fail _
  · exact h.moveTo (.refl _)

omit [FloatTrunc F] [FloatRepr F] [Sha256] in
theorem Alike.atEnd (h : r.Alike r₂) (cursorUs : ℤ) :
    (r.atEnd cursorUs).Alike (r₂.atEnd cursorUs) := by
  cases h with
  | intro hpc hcommands =>
    unfold ProgramRun.atEnd
    simp only [resolve]
    split
    · split
      · exact .intro (.refl _) hcommands
      · split
        · split <;> exact .intro (.refl _) hcommands
        · exact .intro (.refl _) hcommands
    · exact .intro (.refl _) hcommands

omit [FloatRepr F] [Sha256] in
theorem Alike.locate (h : r.Alike r₂) (l : Loop F) (now : F) :
    (r.locate l now).Alike (r₂.locate l now) := by
  have hend := h.atEnd
  cases h with
  | intro hpc hcommands =>
    unfold ProgramRun.locate
    split
    · exact .intro (.refl _) hcommands
    · unfold ProgramRun.locateAt
      simp only [interpolate, resolve]
      split
      · split <;> exact .intro (.refl _) hcommands
      · exact hend _

omit [FloatTrunc F] [FloatRepr F] [Sha256] in
theorem Alike.supervise (h : r.Alike r₂) (hnone : r.policy.gripperTrackingErrorPct = none)
    (t : Tick F) {m m₂ : Pose F} (hm : ∀ j ∈ bodyJoints, m₂ j = m j) :
    (r.supervise t m).Alike (r₂.supervise t m₂) := by
  have hpolicy : r₂.policy = r.policy := by
    cases h with
    | intro => rfl
  have hcount : r₂.trackViolations t m₂ = r.trackViolations t m := by
    unfold trackViolations trackingExceeded
    rw [hpolicy, hnone, trackingError_congr hm]
  unfold ProgramRun.supervise
  simp only [hcount]
  split
  · exact h.moveTo (.fault rfl)
  · exact h.moveTo (.send _ m m₂)

omit [FloatTrunc F] [FloatRepr F] [Sha256] in
theorem Alike.emitTelemetry (h : r.Alike r₂) (t : Tick F) (m m₂ : Pose F) (acceptedUntil : ℤ) :
    (r.emitTelemetry t m acceptedUntil).Alike (r₂.emitTelemetry t m₂ acceptedUntil) := by
  unfold ProgramRun.emitTelemetry
  split
  · cases h with
    | intro hpc hcommands => exact .intro (.refl _) hcommands
  · exact h.moveTo (.refl _)

omit [FloatTrunc F] [FloatRepr F] [Sha256] in
theorem Alike.endTick (h : r.Alike r₂) (l : Loop F) (now : F) :
    (r.endTick l now).Alike (r₂.endTick l now) := by
  unfold ProgramRun.endTick
  simp only
  split_ifs
  · exact h.fail _
  · exact h.moveTo (.refl _)

omit [FloatRepr F] [Sha256] in
/-- Both threads take the same step. -/
theorem Alike.exec {act act₂ : Act F} (h : r.Alike r₂)
    (hnone : r.policy.gripperTrackingErrorPct = none) (hact : SameBody (.exec act) (.exec act₂))
    (hx : r.exec act = some r') : ∃ r₂', r₂.exec act₂ = some r₂' ∧ r'.Alike r₂' := by
  have hcall : ∀ {c c₂ : BackendCall F}, c₂.command? = c.command? →
      (r₂.call c₂).commands = (r.call c).commands := commands_call h.commands
  have halike := h
  cases h with
  | @intro measuredQ pc calls events hpc hcommands =>
  unfold ProgramRun.exec at hx ⊢
  generalize r.pc = v at hpc hx
  cases hpc with
  | refl =>
    cases hact with
    | refl =>
      split at hx
      case h_1 | h_3 | h_4 | h_7 | h_8 | h_16 | h_17 | h_18 | h_22 | h_23 | h_29 | h_30 | h_31 =>
        cases hx
        exact ⟨_, rfl, .intro (.refl _) (hcall rfl)⟩
      case h_9 | h_10 | h_19 | h_24 | h_25 | h_32 | h_33 | h_34 =>
        cases hx
        exact ⟨_, rfl, .intro (.refl _) hcommands⟩
      case h_2 => cases hx; exact ⟨_, rfl, halike.fail _⟩
      case h_5 => cases hx; exact ⟨_, rfl, halike.capture _⟩
      case h_6 =>
        cases hx
        refine ⟨_, rfl, ?_⟩
        simp only
        split_ifs
        · exact halike.fail _
        · exact halike.moveTo (.refl _)
      case h_11 => exact halike.readClock (fun h => h.beginLoop _) hx
      case h_12 => exact halike.readClock (fun h => h.beginTick _ _) hx
      case h_13 => cases hx; exact ⟨_, rfl, halike.checkHeartbeat _ _⟩
      case h_14 => cases hx; exact ⟨_, rfl, halike.locate _ _⟩
      case h_15 => cases hx; exact ⟨_, rfl, (halike.call _).supervise hnone _ fun _ _ => rfl⟩
      case h_20 => cases hx; exact ⟨_, rfl, halike.emitTelemetry _ _ _ _⟩
      case h_21 => exact halike.readClock (fun h => h.endTick _ _) hx
      case h_26 =>
        split_ifs at hx with hbackend htorque
        · cases hx
          exact ⟨_, if_pos hbackend, .intro (.refl _) hcommands⟩
        · cases hx
          exact ⟨_, (if_neg hbackend).trans (if_pos htorque), .intro (.refl _) hcommands⟩
      case h_27 | h_28 =>
        split_ifs at hx with hheld
        cases hx
        exact ⟨_, if_pos hheld, .intro (.refl _) (hcall rfl)⟩
      case h_35 => cases hx
    | pose hbody =>
      cases pc with
      | read t =>
        cases hx
        exact ⟨_, rfl, (halike.call _).supervise hnone _ hbody⟩
      | hold o =>
        simp only at hx
        split_ifs at hx with hheld
        cases hx
        exact ⟨_, if_pos hheld, .intro (.holdSend _ _ _) (hcall rfl)⟩
      | _ => cases hx
  | send t m m' =>
    cases hact with
    | refl =>
      cases act <;> cases hx
      · exact ⟨_, rfl, .intro (.publish _ _ _) (hcall rfl)⟩
      · exact ⟨_, rfl, .intro (.refl _) (hcall rfl)⟩
    | pose => cases hx
  | publish t m m' =>
    cases hact with
    | refl =>
      cases act <;> cases hx
      exact ⟨_, rfl, .intro (.telemetry _ _ _ _) hcommands⟩
    | pose => cases hx
  | telemetry t m m' acceptedUntil =>
    cases hact with
    | refl =>
      cases act <;> cases hx
      exact ⟨_, rfl, halike.emitTelemetry _ _ _ _⟩
    | pose => cases hx
  | holdSend o m m' =>
    cases hact with
    | refl =>
      cases act <;> cases hx
      all_goals exact ⟨_, rfl, .intro (.refl _) (hcall rfl)⟩
    | pose => cases hx
  | fault he =>
    cases hact with
    | refl =>
      cases act <;> cases hx
      refine ⟨_, rfl, ?_⟩
      simp only [he]
      exact .intro (.refl _) hcommands
    | pose => cases hx

omit [FloatTrunc F] [FloatRepr F] [Sha256] in
theorem Alike.validatePoints (h : r.Alike r₂) (previous : Option (TrajectoryPoint F))
    (points : List (TrajectoryPoint F)) :
    r₂.validatePoints previous points = r.validatePoints previous points := by
  cases h with
  | intro =>
    induction points generalizing previous with
    | nil => rfl
    | cons p points ih =>
      unfold ProgramRun.validatePoints
      rw [ih]
      rfl

omit [FloatTrunc F] [FloatRepr F] [Sha256] in
theorem Alike.validateChunk (h : r.Alike r₂) (c : Chunk F) :
    r₂.validateChunk c = r.validateChunk c := by
  have hpoints := h.validatePoints
  cases h with
  | intro =>
    unfold ProgramRun.validateChunk
    rw [hpoints]
    rfl

omit [FloatTrunc F] in
theorem Alike.appendNew (h : r.Alike r₂) (digest : Str) (c : Chunk F) :
    (r.appendNew digest c).2.Alike (r₂.appendNew digest c).2 := by
  have hmatch : (r₂.extend c).digestMatches = (r.extend c).digestMatches := by
    cases h with
    | intro => rfl
  unfold ProgramRun.appendNew
  rw [h.validateChunk]
  split
  · exact h
  · simp only [hmatch]
    cases h with
    | intro hpc hcommands =>
      split_ifs
      · split <;> exact .intro hpc hcommands
      · exact .intro hpc hcommands

omit [FloatTrunc F] in
theorem Alike.appendChunk (h : r.Alike r₂) (c : Chunk F) :
    (r.appendChunk c).2.Alike (r₂.appendChunk c).2 := by
  have hreceipts : r₂.chunkReceipts = r.chunkReceipts := by
    cases h with
    | intro => rfl
  unfold ProgramRun.appendChunk
  rw [hreceipts]
  split
  · exact h
  · split
    · exact h
    · exact h
    · split
      · split <;> exact h
      · exact h.appendNew _ c

omit [FloatTrunc F] [FloatRepr F] [Sha256] [PyFloat F] in
theorem Alike.start (h : r.Alike r₂) (hstart : r.start = .ok r') :
    ∃ r₂', r₂.start = .ok r₂' ∧ r'.Alike r₂' := by
  obtain ⟨hstate, hpoints, hsealed, hstreaming, rfl⟩ := start_eq_ok.1 hstart
  cases h with
  | intro hpc hcommands =>
    exact ⟨_, start_eq_ok.2 ⟨hstate, hpoints, hsealed, hstreaming, rfl⟩, .intro (.refl _) hcommands⟩

theorem Alike.startStep (h : r.Alike r₂) (hs : r.step .start = some r') :
    ∃ r₂', r₂.step .start = some r₂' ∧ r'.Alike r₂' := by
  unfold ProgramRun.step at hs ⊢
  cases hstart : r.start with
  | ok s =>
    obtain ⟨s₂, hstart₂, halike⟩ := h.start hstart
    simp only [hstart] at hs
    simp only [hstart₂]
    exact ⟨s₂, rfl, Option.some.inj hs ▸ halike⟩
  | error e =>
    cases hstart₂ : r₂.start with
    | ok s₂ =>
      obtain ⟨s, hok, -⟩ := h.symm.start hstart₂
      rw [hstart] at hok
      cases hok
    | error e₂ =>
      simp only [hstart] at hs
      exact ⟨r₂, rfl, Option.some.inj hs ▸ h⟩

/-- The same step of both runs. -/
theorem Alike.step {l l₂ : Label F} (h : r.Alike r₂)
    (hnone : r.policy.gripperTrackingErrorPct = none) (hl : SameBody l l₂)
    (hs : r.step l = some r') : ∃ r₂', r₂.step l₂ = some r₂' ∧ r'.Alike r₂' := by
  by_cases hexec : ∃ act act₂, l = .exec act ∧ l₂ = .exec act₂
  · obtain ⟨act, act₂, rfl, rfl⟩ := hexec
    exact h.exec hnone hl hs
  cases hl with
  | pose => exact absurd ⟨_, _, rfl, rfl⟩ hexec
  | refl =>
    rcases step_cases hs with ⟨c, rfl, rfl⟩ | ⟨rfl, hstart⟩ | ⟨now, rfl, hclock, rfl⟩ |
      ⟨reason, rfl, rfl⟩ | ⟨rfl, rfl⟩ | ⟨act, rfl, -⟩
    · exact ⟨_, rfl, h.appendChunk c⟩
    · exact h.startStep hs
    · cases h with
      | intro hpc hcommands => exact ⟨_, if_pos hclock, .intro hpc hcommands⟩
    · cases h with
      | intro hpc hcommands => exact ⟨_, rfl, .intro hpc hcommands⟩
    · refine ⟨_, rfl, ?_⟩
      cases h with
      | intro hpc hcommands =>
        unfold ProgramRun.connectionLost
        simp only
        split <;> exact .intro hpc hcommands
    · exact absurd ⟨act, act, rfl, rfl⟩ hexec

theorem Alike.run {ls ls₂ : List (Label F)} (h : r.Alike r₂)
    (hnone : r.policy.gripperTrackingErrorPct = none) (hls : List.Forall₂ SameBody ls ls₂)
    (hrun : Transition.run ProgramRun.step r ls = some r') :
    ∃ r₂', Transition.run ProgramRun.step r₂ ls₂ = some r₂' ∧ r'.Alike r₂' := by
  induction hls generalizing r r₂ with
  | nil =>
    cases hrun
    exact ⟨r₂, rfl, h⟩
  | cons hl _ ih =>
    obtain ⟨m, hm, hrest⟩ := Transition.run_cons_eq_some.1 hrun
    obtain ⟨m₂, hm₂, halike⟩ := h.step hnone hl hm
    obtain ⟨r₂', hr₂', hend⟩ := ih halike (by rw [config_of_step hm]; exact hnone) hrest
    exact ⟨r₂', Transition.run_cons_eq_some.2 ⟨m₂, hm₂, hr₂'⟩, hend⟩

theorem Alike.raisesTracking {l l₂ : Label F} (h : r.Alike r₂)
    (hnone : r.policy.gripperTrackingErrorPct = none) (hl : SameBody l l₂)
    (hraises : r.RaisesTracking l) : r₂.RaisesTracking l₂ := by
  obtain ⟨act, e, r', rfl, hact, hs, hpc, hcode⟩ := hraises
  obtain ⟨r₂', hs₂, halike⟩ := h.step hnone hl hs
  have hpc₂ : (Pc.fault e).Alike r₂'.pc := by
    cases halike with
    | intro halike => exact hpc ▸ halike
  obtain ⟨e₂, he₂, hcode₂⟩ : ∃ e₂, r₂'.pc = .fault e₂ ∧ e₂.outcome = e.outcome := by
    generalize r₂'.pc = w at hpc₂
    cases hpc₂ with
    | refl => exact ⟨e, rfl, rfl⟩
    | fault he => exact ⟨_, rfl, he⟩
  cases hl with
  | refl => exact ⟨act, e₂, r₂', rfl, hact, hs₂, he₂, by rw [hcode₂]; exact hcode⟩
  | pose => exact ⟨_, e₂, r₂', rfl, fun x hx => (by cases hx), hs₂, he₂, by rw [hcode₂]; exact hcode⟩

end Alike

/-! ## Every run -/

theorem comparisons_singleton (l : Label F) : r.comparisons [l] = (r.comparison l).toList := by
  unfold comparisons
  split <;> exact List.append_nil _

/-- The state a step raises from, and the one it leaves. -/
theorem CountOk.of_raisesTracking {cs : List (Pose F × Pose F)} (h : r.CountOk cs) {l : Label F}
    (hraises : r.RaisesTracking l) : r.pc.stage = .running ∧ r.targets = cs.map Prod.fst ∧
      ∀ m, r.step l = some m → m.pc.stage = .leaving ∧ m.targets = r.targets := by
  obtain ⟨act, e, r', rfl, hact, hstep, hpc', hcode⟩ := hraises
  rcases raised_of_tracking hstep hpc' hcode with rfl | ⟨t, q, hpc, rfl, rfl⟩
  · exact absurd rfl (hact e)
  · unfold CountOk at h
    rw [hpc] at h
    refine ⟨by rw [hpc]; rfl, h.2, fun m hm => ?_⟩
    obtain rfl := Option.some.inj (hstep.symm.trans hm)
    rcases supervise_cases (r.call .readQ) t q with ⟨-, x, hx, -⟩ | ⟨-, he⟩
    · rw [hx]
      exact ⟨rfl, (targets_append rfl).trans (List.append_nil _)⟩
    · rw [he] at hpc'
      cases hpc'

/-- Where the gripper has no limit, two executions that read the same bodies send the same targets
in the same ticks and raise `TRACKING_ERROR` in the same tick.  With or without the limit, a step
raises it where its comparison is the fifth in a row that came out too far; none of the ticks
before completed five, each of them sent its target, and neither this tick nor anything behind it
sends another. -/
theorem tracking_supervised (cfg : RunConfig F) (now : F) (ls : List (Label F)) (s : ProgramRun F)
    (hs : Transition.run step (init cfg now) ls = some s) :
    (cfg.policy.gripperTrackingErrorPct = none → ∀ ls₂, List.Forall₂ SameBody ls ls₂ →
      ∃ s₂, Transition.run step (init cfg now) ls₂ = some s₂ ∧ s₂.commands = s.commands ∧
        ∀ l l₂, SameBody l l₂ → (s.RaisesTracking l ↔ s₂.RaisesTracking l₂)) ∧
    ∀ l, (s.RaisesTracking l ↔ (s.comparison l).isSome = true ∧
        FiveTooFar cfg.policy ((init cfg now).comparisons (ls ++ [l]))) ∧
      (s.RaisesTracking l →
        (∀ ls₁, ls₁ <+: ls → ¬FiveTooFar cfg.policy ((init cfg now).comparisons ls₁)) ∧
        ∀ ls' s', Transition.run step s (l :: ls') = some s' →
          s'.targets = ((init cfg now).comparisons ls).map Prod.fst) := by
  have hcfg := config_of_reachable ⟨ls, hs⟩
  have hcounted := counted_of_run (counted_init cfg now) hs
  rw [List.nil_append] at hcounted
  have hpolicy : s.policy = cfg.policy := by
    rw [hcfg]
    rfl
  refine ⟨fun hnone ls₂ hls => ?_, fun l => ⟨?_, fun hraises => ⟨fun ls₁ hpre => ?_, ?_⟩⟩⟩
  · obtain ⟨s₂, hs₂, halike⟩ := (Alike.refl (init cfg now)).run hnone hls hs
    have hcfg₂ := config_of_reachable ⟨ls₂, hs₂⟩
    refine ⟨s₂, hs₂, halike.commands, fun l l₂ hl => ⟨halike.raisesTracking ?_ hl,
      halike.symm.raisesTracking ?_ hl.symm⟩⟩
    · rw [hcfg]
      exact hnone
    · rw [hcfg₂]
      exact hnone
  · rw [hcounted.count.raisesTracking_iff, comparisons_append hs, comparisons_singleton]
    cases s.comparison l with
    | none => simp
    | some c =>
      rw [← hpolicy, ← five_le_violations]
      simp
  · obtain ⟨ls₂, rfl⟩ := hpre
    rw [Transition.run_append] at hs
    obtain ⟨m, hm, -⟩ := Option.bind_eq_some_iff.1 hs
    have hstage := (hcounted.count.of_raisesTracking hraises).1
    have hfew := hcounted.quiet (by rw [hstage]; decide) (by rw [hstage]; decide)
      ((init cfg now).comparisons ls₁) (by rw [comparisons_append hm]; exact List.prefix_append _ _)
    rw [← hpolicy, ← five_le_violations]
    exact not_le.2 hfew
  · intro ls' s' hrun
    obtain ⟨m, hm, hrest⟩ := Transition.run_cons_eq_some.1 hrun
    obtain ⟨-, htargets, hleave⟩ := hcounted.count.of_raisesTracking hraises
    obtain ⟨hleaving, hsame⟩ := hleave m hm
    rw [targets_of_leaving (hcounted.stage.step hm) (.inl hleaving) ⟨ls', hrest⟩, hsame, htargets]

end ProgramRun

end Supervise

/-! ## Five ticks of a body that stands still -/

section Demo

open ProgramRun

local instance supervisionHash : Sha256 := lengthHash

/-- The first joint far from the program, the gripper at `pct`. -/
def demoStalled (pct : ℚ) : Pose ℚ
  | .gripper => pct
  | j => demoPose 30 j

/-- A tick that measures `q`, up to the next. -/
def demoFollow (q : Pose ℚ) : List (ProgramRun.Label ℚ) :=
  [.exec (.clock 0), .exec .internal, .exec .internal, .exec (.pose q), .exec .returned,
    .exec .internal, .exec .internal, .exec (.clock 0)]

/-- Four ticks, and the fifth up to its reading. -/
def demoStall (q : Pose ℚ) : List (ProgramRun.Label ℚ) :=
  demoArming (demoChunk 0 demoPoints true) ++ demoFollow q ++ demoFollow q ++ demoFollow q ++
    demoFollow q ++ [Label.exec (.clock 0), .exec .internal, .exec .internal]

theorem demoStall_sameBody {q q' : Pose ℚ} (h : ∀ j ∈ bodyJoints, q' j = q j) :
    List.Forall₂ SameBody (demoStall q) (demoStall q') := by
  have hsame : ∀ ls : List (ProgramRun.Label ℚ), List.Forall₂ SameBody ls ls :=
    fun ls => List.forall₂_same.2 fun l _ => .refl l
  have hfollow : List.Forall₂ SameBody (demoFollow q) (demoFollow q') :=
    .cons (.refl _) (.cons (.refl _) (.cons (.refl _) (.cons (.pose h) (hsame _))))
  exact List.rel_append (List.rel_append (List.rel_append (List.rel_append (List.rel_append
    (hsame _) hfollow) hfollow) hfollow) hfollow) (hsame _)

theorem tracking_supervised_demo : ∃ s s₂,
    Transition.run step (init (demoConfig .sealed demoDigest) 0) (demoStall (demoStalled 0)) =
      some s ∧
    Transition.run step (init (demoConfig .sealed demoDigest) 0) (demoStall (demoStalled 80)) =
      some s₂ ∧
    s₂.commands = s.commands ∧ s.RaisesTracking (.exec (.pose (demoStalled 0))) ∧
    s₂.RaisesTracking (.exec (.pose (demoStalled 80))) := by
  have hrun : ((Transition.run step (init (demoConfig .sealed demoDigest) 0)
      (demoStall (demoStalled 0))).map fun s =>
        (s.comparison (.exec (.pose (demoStalled 0)))).isSome) = some true := by decide +kernel
  obtain ⟨s, hs, hsome⟩ := Option.map_eq_some_iff.1 hrun
  have hfive : 5 ≤ (init (demoConfig .sealed demoDigest) 0).violations
      ((init (demoConfig .sealed demoDigest) 0).comparisons
        (demoStall (demoStalled 0) ++ [.exec (.pose (demoStalled 0))])) := by decide +kernel
  have hbody : ∀ j ∈ bodyJoints, demoStalled 80 j = demoStalled 0 j := by decide
  obtain ⟨htwo, hone⟩ := tracking_supervised (demoConfig .sealed demoDigest) 0 _ s hs
  obtain ⟨s₂, hs₂, hcommands, hboth⟩ := htwo rfl _ (demoStall_sameBody hbody)
  have hraises := (hone (.exec (.pose (demoStalled 0)))).1.2 ⟨hsome, five_le_violations.1 hfive⟩
  exact ⟨s, s₂, hs, hs₂, hcommands, hraises, (hboth _ _ (.pose hbody)).1 hraises⟩

end Demo

end RemoteRobot.Stream
