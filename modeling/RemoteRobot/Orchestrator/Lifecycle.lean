import RemoteRobot.Orchestrator.Barrier

/-!
# The journal of a run

What a run writes, as an automaton: `Stage` counts the entries between `run.opened` and the last,
`Writes` says which entry may come next, and `Word` is the language.  Every run ID of every
reachable state has a word of it in the journal: each step of a run writes at most one entry, the
one its program counter is at (`Task.step_writes`), and a run ID opens only with an empty journal.
-/

namespace RemoteRobot

open Py Except

variable {F : Type}

/-! ## The language -/

/-- The type of a journal entry. -/
def entryType : Val F → Val F
  | .dict kvs => field "type" kvs
  | _ => .none

def entryPhaseIndex : Val F → Val F
  | .dict kvs => field "phase_index" kvs
  | _ => .none

/-- The entry has this type and, where there is one, this phase index. -/
structure IsEntry (type : String) (phaseIndex : Option ℕ) (event : Val F) : Prop where
  type : entryType event = .str (py type)
  phaseIndex : entryPhaseIndex event = Task.optNat phaseIndex

/-- The four entries of a phase. -/
def phaseEntry : ℕ → String
  | 0 => "phase.prepared"
  | 1 => "phase.scheduled"
  | 2 => "phase.started"
  | _ => "phase.completed"

/-- Type and phase index of entry `m` after `run.opened`: `workers.disabled`, then the entries of
the phases. -/
def lifecycle : ℕ → String × Option ℕ
  | 0 => ("workers.disabled", none)
  | m + 1 => (phaseEntry (m % 4), some (m / 4))

theorem lifecycle_phase (k : ℕ) {j : ℕ} (hj : j < 4) :
    lifecycle (1 + 4 * k + j) = (phaseEntry j, some k) := by
  rw [show 1 + 4 * k + j = (4 * k + j) + 1 by omega, lifecycle,
    show (4 * k + j) % 4 = j by omega, show (4 * k + j) / 4 = k by omega]

/-- How far the journal of a run is. -/
inductive Stage where
  | unopened
  | after (m : ℕ)
  | ended

/-- The entry that leads from one stage to the next, for a program with `n` phases. -/
inductive Writes (n : ℕ) : Stage → Val F → Stage → Prop
  | opened {event} (h : IsEntry "run.opened" none event) : Writes n .unopened event (.after 0)
  | next {m event} (hm : m < 1 + 4 * n) (h : IsEntry (lifecycle m).1 (lifecycle m).2 event) :
      Writes n (.after m) event (.after (m + 1))
  | completed {event} (h : IsEntry "run.completed" none event) :
      Writes n (.after (1 + 4 * n)) event .ended
  | faulted {m event} (h : IsEntry "run.faulted" none event) : Writes n (.after m) event .ended

/-- The words that lead to a stage. -/
inductive Word (n : ℕ) : Stage → List (Val F) → Prop
  | nil : Word n .unopened []
  | snoc {a b word event} (h : Word n a word) (hw : Writes n a event b) : Word n b (word ++ [event])

/-- A step that writes nothing stays in its stage. -/
def Recorded (n : ℕ) (a : Stage) : Option (Val F) → Stage → Prop
  | none, b => b = a
  | some event, b => Writes n a event b

theorem Word.recorded {n : ℕ} {a b : Stage} {word : List (Val F)} {event : Option (Val F)}
    (h : Word n a word) (hw : Recorded n a event b) : Word n b (word ++ event.toList) := by
  cases event with
  | none =>
    rw [Option.toList_none, List.append_nil, show b = a from hw]
    exact h
  | some event => exact .snoc h hw

theorem Word.eq_nil {n : ℕ} {word : List (Val F)} (h : Word n .unopened word) : word = [] := by
  generalize ha : Stage.unopened = a at h
  cases h with
  | nil => rfl
  | snoc _ hw => cases hw <;> cases ha

theorem lifecycle_ne_opened (m : ℕ) : (lifecycle m).1 ≠ "run.opened" := by
  cases m with
  | zero => decide
  | succ m =>
    unfold lifecycle phaseEntry
    dsimp only
    split <;> decide

theorem py_ne {a b : String} (h : a ≠ b) : (py a : Str) ≠ py b := fun he => h (py_inj.1 he)

/-- Only the first entry of a word is `run.opened`. -/
theorem Word.opened_once {n : ℕ} {a : Stage} {word : List (Val F)} (h : Word n a word) :
    ∀ pre event post, word = pre ++ event :: post → IsEntry "run.opened" none event → pre = [] := by
  induction h with
  | nil => intro pre event post heq; exact absurd heq (by simp)
  | @snoc a b word last hw hnext ih =>
    intro pre event post heq hopened
    rcases List.eq_nil_or_concat post with rfl | ⟨post, e, rfl⟩
    · obtain ⟨rfl, hlast⟩ := List.append_inj' heq rfl
      obtain rfl : last = event := by simpa using hlast
      have htype := hopened.type
      cases hnext with
      | opened => exact hw.eq_nil
      | next hm h =>
        rw [h.type] at htype
        exact absurd (Val.str.inj htype) (py_ne (lifecycle_ne_opened _))
      | completed h | faulted h =>
        rw [h.type] at htype
        exact absurd (Val.str.inj htype) (py_ne (by decide))
    · rw [List.concat_eq_append, ← List.cons_append, ← List.append_assoc] at heq
      obtain ⟨heq, -⟩ := List.append_inj' heq rfl
      exact ih pre event post heq hopened

/-! ## Where a run is -/

/-- The stage of a run with `n` phases that waits for the fan-out. -/
def Fan.AtStage (n : ℕ) (stage : Stage) : Fan → Prop
  | .disable => stage = .after 0
  | .prepare k => stage = .after (1 + 4 * k) ∧ k < n
  | .start k _ => stage = .after (1 + 4 * k + 1) ∧ k < n
  | .stop none => stage = .after (1 + 4 * n)
  | .stop (some _) => ∃ m, stage = .after m

/-- The entries of a phase that are there when the run waits for the events. -/
def WaitStage.entries : WaitStage → ℕ
  | .started => 2
  | .completed => 3

namespace Task

/-- The stage a program counter stands for. -/
def AtStage (t : Task F) (stage : Stage) : Prop :=
  match t.pc with
  | .fanOut fan _ _ => fan.AtStage t.phases.length stage
  | .waiting k _ wait _ => stage = .after (1 + 4 * k + wait.entries) ∧ k < t.phases.length
  | .draining _ _ => ∃ m, stage = .after m
  | .done _ => stage ≠ .unopened

variable {t t' : Task F} {stage : Stage}

theorem AtStage.fanOut {fan : Fan} {calls : List (Call F)} {cancelled : Bool}
    (h : t.AtStage stage) (hpc : t.pc = .fanOut fan calls cancelled) :
    fan.AtStage t.phases.length stage := by
  unfold AtStage at h
  rw [hpc] at h
  exact h

theorem AtStage.waiting {k startAtUs : ℕ} {wait : WaitStage} {waits : List (Wait F)}
    (h : t.AtStage stage) (hpc : t.pc = .waiting k startAtUs wait waits) :
    stage = .after (1 + 4 * k + wait.entries) ∧ k < t.phases.length := by
  unfold AtStage at h
  rw [hpc] at h
  exact h

/-- The run is past `run.opened`, before its last entry. -/
theorem AtStage.after (h : t.AtStage stage) (hdone : t.isDone = false) : ∃ m, stage = .after m := by
  unfold isDone at hdone
  unfold AtStage at h
  split at h
  · rename_i fan _ _ _
    cases fan with
    | disable => exact ⟨0, h⟩
    | prepare k | start k => exact ⟨_, h.1⟩
    | stop failure =>
      cases failure with
      | none => exact ⟨_, h⟩
      | some failure => exact h
  · exact ⟨_, h.1⟩
  · exact h
  · rename_i hpc
    rw [hpc] at hdone
    cases hdone

/-! ## What a step writes -/

/-- The run comes to another stage with what it wrote. -/
def Advances (n : ℕ) (stage : Stage) (r : Task F × Option (Val F)) : Prop :=
  ∃ stage', Recorded n stage r.2 stage' ∧ r.1.AtStage stage'

theorem advances_stopAll {n m : ℕ} {failure : Failure} :
    Advances n (.after m) (t.stopAll (some failure), none) := ⟨.after m, rfl, m, rfl⟩

/-- An entry inside the `try` block is written, or the run goes on to its failure stops. -/
theorem advances_append {n m : ℕ} {event : Val F} {appendError : Option Str} (hm : m < 1 + 4 * n)
    (hevent : IsEntry (lifecycle m).1 (lifecycle m).2 event) (hnext : t'.AtStage (.after (m + 1))) :
    Advances n (.after m) (t.append event appendError t') := by
  cases appendError with
  | none => exact ⟨_, .next hm hevent, hnext⟩
  | some errorType => exact advances_stopAll

theorem isEntry_phaseEvent {type : String} {k : ℕ} {extra : List (String × Val F)} :
    IsEntry type (some k) (t.phaseEvent type k extra) := by
  constructor
  · simp [entryType, phaseEvent, dictOf, field]
  · simp [entryPhaseIndex, phaseEvent, dictOf, field, optNat]

theorem isEntry_dictOf {type : String} {extra : List (String × Val F)}
    (h : lookup (py "phase_index") (entries extra) = none) :
    IsEntry type none (dictOf (("type", .str (py type)) :: extra)) := by
  constructor
  · simp [entryType, dictOf, field]
  · simp [entryPhaseIndex, dictOf, field, optNat, h]

theorem atStage_stopAll {failure : Failure} {m : ℕ} :
    (t.stopAll (some failure)).AtStage (.after m) := ⟨m, rfl⟩

section Step

variable [PyText F]

theorem atStage_beginPhase {k : ℕ} (hk : k ≤ t.phases.length) :
    (t.beginPhase k).AtStage (.after (1 + 4 * k)) := by
  unfold beginPhase
  split
  · rename_i hphase
    have : t.phases.length ≤ k := List.getElem?_eq_none_iff.1 hphase
    show Stage.after (1 + 4 * k) = .after (1 + 4 * t.phases.length)
    rw [Nat.le_antisymm hk this]
  · rename_i phase hphase
    obtain ⟨hlt, -⟩ := List.getElem?_eq_some_iff.1 hphase
    split
    · exact atStage_stopAll
    · dsimp only
      split
      · exact atStage_stopAll
      · split_ifs
        · split
          · exact atStage_stopAll
          · exact ⟨rfl, hlt⟩
        · exact atStage_stopAll

variable [Cbor F] [Sha256] [PyFloat F] (cfg : Setup F)

theorem advances_afterStarted {k startAtUs : ℕ} {waits : List (Wait F)}
    (appendError : Option Str) (hk : k < t.phases.length) :
    Advances t.phases.length (.after (1 + 4 * k + 2))
      (t.afterStarted cfg k startAtUs waits appendError) := by
  unfold afterStarted
  split
  · exact advances_stopAll
  · split
    · exact advances_stopAll
    · refine advances_append (by omega) ?_ ?_
      · rw [lifecycle_phase k (by omega)]
        exact isEntry_phaseEvent
      · split_ifs
        · exact atStage_stopAll
        · split
          · exact ⟨rfl, hk⟩
          · exact atStage_stopAll

theorem advances_afterFanOut {fan : Fan} {calls : List (Call F)} (nowUs : ℕ)
    (appendError : Option Str) (h : fan.AtStage t.phases.length stage) :
    Advances t.phases.length stage (t.afterFanOut cfg fan calls nowUs appendError) := by
  cases fan with
  | disable =>
    rw [show stage = .after 0 from h]
    simp only [afterFanOut]
    split_ifs
    · exact advances_stopAll
    · refine advances_append (by omega) (isEntry_dictOf (by simp)) ?_
      exact atStage_beginPhase (Nat.zero_le _)
  | prepare k =>
    obtain ⟨rfl, hk⟩ := h
    simp only [afterFanOut]
    split_ifs
    · exact advances_stopAll
    · refine advances_append (by omega) ?_ ⟨rfl, hk⟩
      rw [← Nat.add_zero (1 + 4 * k), lifecycle_phase k (by omega)]
      exact isEntry_phaseEvent
  | start k startAtUs =>
    obtain ⟨rfl, hk⟩ := h
    simp only [afterFanOut]
    split_ifs
    · exact advances_stopAll
    · refine advances_append (by omega) ?_ ⟨rfl, hk⟩
      rw [lifecycle_phase k (by omega)]
      exact isEntry_phaseEvent
  | stop failure =>
    cases failure with
    | none =>
      rw [show stage = .after (1 + 4 * t.phases.length) from h]
      simp only [afterFanOut]
      split_ifs
      · exact advances_stopAll
      · cases appendError with
        | none => exact ⟨.ended, .completed (isEntry_dictOf (by simp)), fun h => by cases h⟩
        | some errorType => exact advances_stopAll
    | some failure =>
      obtain ⟨m, rfl⟩ := h
      cases appendError with
      | none => exact ⟨.ended, .faulted (isEntry_dictOf (by simp)), fun h => by cases h⟩
      | some errorType => exact ⟨.after m, rfl, fun h => by cases h⟩

theorem advances_resume {nowUs : ℕ} {appendError : Option Str} {r : Task F × Option (Val F)}
    (hat : t.AtStage stage) (h : t.resume cfg nowUs appendError = some r) :
    Advances t.phases.length stage r := by
  unfold resume at h
  split at h
  · rename_i fan calls cancelled hpc
    have hfan := hat.fanOut hpc
    split_ifs at h with hfin hcancel
    · obtain ⟨m, rfl⟩ := hat.after (by rw [isDone, hpc])
      split at h
      · cases h
        exact ⟨.after m, rfl, nofun⟩
      · cases h
        exact advances_stopAll
    · cases h
      exact advances_afterFanOut cfg nowUs appendError hfan
  · rename_i k startAtUs wait waits hpc
    obtain ⟨rfl, hk⟩ := hat.waiting hpc
    split_ifs at h with hfailed hgot
    · cases h
      exact ⟨_, rfl, _, rfl⟩
    · cases wait with
      | started =>
        cases h
        exact advances_afterStarted cfg appendError hk
      | completed =>
        cases h
        refine advances_append (by simp only [WaitStage.entries]; omega) ?_ ?_
        · rw [WaitStage.entries, lifecycle_phase k (by omega)]
          exact isEntry_phaseEvent
        · exact atStage_beginPhase hk
  · rename_i failure pending hpc
    obtain ⟨m, rfl⟩ := hat.after (by rw [isDone, hpc])
    split_ifs at h
    cases h
    exact advances_stopAll
  · cases h

/-- Every step writes at most the entry the run is at. -/
theorem step_writes {l : Label F} {r : Task F × Option (Val F)} (hat : t.AtStage stage)
    (h : t.step cfg l = some r) : Advances t.phases.length stage r := by
  have hquiet : ∀ t' : Task F, Move t l t' → (∀ nowUs e, l ≠ .resume nowUs e) →
      Advances t.phases.length stage (t', none) := by
    intro t' hm hl
    refine ⟨stage, rfl, ?_⟩
    cases hm with
    | sent hpc | finished hpc | cancelCalls hpc => exact hat.fanOut hpc
    | delivered hpc | waitFailed hpc => exact hat.waiting hpc
    | cancelWaits hpc => exact ⟨_, (hat.waiting hpc).1⟩
    | drained hpc => exact hat.after (by rw [isDone, hpc])
    | resumed => exact absurd rfl (hl _ _)
  cases l with
  | resume nowUs appendError => exact advances_resume cfg hat h
  | begin w =>
    obtain ⟨t', h', rfl⟩ := Option.map_eq_some_iff.1 h
    exact hquiet t' (.of_begin h') nofun
  | reply w reply =>
    obtain ⟨t', h', rfl⟩ := Option.map_eq_some_iff.1 h
    exact hquiet t' (.of_answer h') nofun
  | event w event =>
    obtain ⟨t', h', rfl⟩ := Option.map_eq_some_iff.1 h
    exact hquiet t' (.of_deliver h') nofun
  | waitError w =>
    obtain ⟨t', h', rfl⟩ := Option.map_eq_some_iff.1 h
    obtain ⟨k, startAtUs, wait, waits, hpc, -, rfl⟩ := setWait_eq_some h'
    exact hquiet _ (.waitFailed hpc) nofun
  | waiterEnd w =>
    obtain ⟨t', h', rfl⟩ := Option.map_eq_some_iff.1 h
    exact hquiet t' (.of_waiterEnd h') nofun
  | cancel =>
    obtain ⟨t', h', rfl⟩ := Option.map_eq_some_iff.1 h
    exact hquiet t' (.of_cancel h') nofun

end Step

end Task

/-! ## All runs of one orchestrator -/

namespace System

/-- The journal of one run ID. -/
def entriesOf (s : System F) (runId : Str) : List (Val F) :=
  (s.journal.filter fun e => e.1 = runId).map Prod.snd

theorem entriesOf_append {s s' : System F} {runId : Str} (event : Option (Val F))
    (h : s'.journal = s.journal ++ (event.map fun e => (runId, e)).toList) (r : Str) :
    s'.entriesOf r = s.entriesOf r ++ if r = runId then event.toList else [] := by
  unfold entriesOf
  rw [h, List.filter_append, List.map_append]
  congr 1
  cases event with
  | none => split_ifs <;> rfl
  | some event =>
    split_ifs with hr
    · rw [hr]
      simp
    · simp [Ne.symm hr]

/-- Every run ID has a word, and its run is at the stage of the word. -/
def Journalled (s : System F) : Prop :=
  ∀ r, ∃ n stage, Word n stage (s.entriesOf r) ∧
    ∀ t, s.tasks.get r = some t → n = t.phases.length ∧ t.AtStage stage

variable [Cbor F] [Sha256] [PyFloat F] [PyText F] {cfg : Setup F}

/-- A call of `execute` writes nothing, or opens the empty journal of its run ID. -/
theorem openRun_writes {s s' : System F} {runId identityId : Str} {program : CompiledProgram F}
    {ns : ℕ} {appendError : Option (Error F)} {r : Except (Error F) (Task F)}
    (h : s.openRun cfg runId identityId program ns appendError = (s', r)) :
    (s'.journal = s.journal ∧ s'.tasks = s.tasks) ∨
    ∃ t event, s.entriesOf runId = [] ∧ IsEntry "run.opened" none event ∧ t.AtStage (.after 0) ∧
      s'.journal = s.journal ++ [(runId, event)] ∧ s'.tasks = s.tasks.insert runId t := by
  unfold openRun at h
  split_ifs at h with hactive
  · cases h
    exact .inl ⟨rfl, rfl⟩
  split at h
  · cases h
    exact .inl ⟨rfl, rfl⟩
  · rename_i checked locks workerIds hprepare
    split at h
    · cases h
      exact .inl ⟨rfl, rfl⟩
    · split at h
      · cases h
        refine .inr ⟨_, _, ?_, Task.isEntry_dictOf (by simp), ?_, rfl, rfl⟩
        swap
        · exact (rfl : Stage.after 0 = .after 0)
        unfold prepareRun at hprepare
        simp only [bind_eq_ok, raiseWhen_eq_ok, exists_unit] at hprepare
        obtain ⟨used, hused, hunused, -⟩ := hprepare
        unfold hasHistory at hused
        split_ifs at hused
        have hnone : (s.journal.any fun e => e.1 = runId) = false := by
          rw [Except.ok.inj hused]
          exact Bool.eq_false_iff.2 hunused
        unfold entriesOf
        rw [List.map_eq_nil_iff, List.filter_eq_nil_iff]
        exact fun e he => List.any_eq_false.1 hnone e he
      all_goals
        cases h
        exact .inl ⟨rfl, rfl⟩

theorem Journalled.step {s s' : System F} {l : Label F} (h : s.Journalled)
    (hs : s.step cfg l = some s') : s'.Journalled := by
  cases l with
  | call runId identityId program ns appendError =>
    cases ho : s.openRun cfg runId identityId program ns appendError with
    | mk s₁ result =>
      obtain rfl : s₁ = s' := by
        rw [System.step, ho] at hs
        exact Option.some.inj hs
      intro r
      rcases openRun_writes ho with ⟨hj, ht⟩ | ⟨t, event, hempty, hevent, hat, hj, ht⟩
      · obtain ⟨n, stage, hword, htask⟩ := h r
        refine ⟨n, stage, ?_, ?_⟩
        · unfold entriesOf at hword ⊢
          rw [hj]
          exact hword
        · rw [ht]
          exact htask
      · have hentries := entriesOf_append (some event) hj r
        by_cases hr : r = runId
        · refine ⟨t.phases.length, .after 0, ?_, fun t' ht' => ?_⟩
          · rw [hentries, if_pos hr, hr, hempty]
            exact .snoc .nil (.opened hevent)
          · rw [ht, Table.get_insert, if_pos hr] at ht'
            cases ht'
            exact ⟨rfl, hat⟩
        · obtain ⟨n, stage, hword, htask⟩ := h r
          refine ⟨n, stage, ?_, fun t' ht' => ?_⟩
          · rw [hentries, if_neg hr, List.append_nil]
            exact hword
          · rw [ht, Table.get_insert, if_neg hr] at ht'
            exact htask t' ht'
  | task runId label =>
    obtain ⟨t, ht, hs⟩ := Option.bind_eq_some_iff.1 hs
    obtain ⟨⟨t', event⟩, hstep, rfl⟩ := Option.map_eq_some_iff.1 hs
    intro r
    have hentries : (s.commit runId t' event).entriesOf r = _ := entriesOf_append event rfl r
    obtain ⟨n, stage, hword, htask⟩ := h r
    by_cases hr : r = runId
    · rw [hr] at hword htask
      obtain ⟨rfl, hat⟩ := htask t ht
      obtain ⟨stage', hrec, hat'⟩ := Task.step_writes cfg hat hstep
      refine ⟨t.phases.length, stage', ?_, fun t₁ h₁ => ?_⟩
      · rw [hentries, if_pos hr, hr]
        exact hword.recorded hrec
      · rw [commit_tasks, Table.get_insert, if_pos hr] at h₁
        cases h₁
        rw [Task.toRun_of_move (Task.move_of_step hstep)]
        exact ⟨rfl, hat'⟩
    · refine ⟨n, stage, ?_, fun t₁ h₁ => ?_⟩
      · rw [hentries, if_neg hr, List.append_nil]
        exact hword
      · rw [commit_tasks, Table.get_insert, if_neg hr] at h₁
        exact htask t₁ h₁

/-- Over all interleavings, repeated run IDs and failed appends: the journal of a run ID is a word
of the lifecycle of the run's program, which `run.opened` only begins. -/
theorem journal_words (cfg : Setup F) {s₀ s : System F} (h₀ : s₀.Initial)
    (hpast : ∀ r, ∃ n stage, Word n stage (s₀.entriesOf r))
    (h : Transition.Reachable (System.step cfg) s₀ s) (runId : Str) :
    ∃ n stage, Word n stage (s.entriesOf runId) ∧
      (∀ t, s.tasks.get runId = some t → n = t.phases.length) ∧
      ∀ pre event post, s.entriesOf runId = pre ++ event :: post →
        IsEntry "run.opened" none event → pre = [] := by
  have hinit : s₀.Journalled := by
    intro r
    obtain ⟨n, stage, hword⟩ := hpast r
    refine ⟨n, stage, hword, fun t ht => ?_⟩
    rw [h₀.2.2, Table.get_empty] at ht
    cases ht
  obtain ⟨n, stage, hword, htask⟩ := h.invariant (fun _ _ _ hI hs => hI.step hs) hinit runId
  exact ⟨n, stage, hword, fun t ht => (htask t ht).1, hword.opened_once⟩

end System

/-! ### The journal of a complete run -/

section Demo

local instance lifecycleHash : Sha256 := demoHash

def demoExecutionId : Str := py "run:0:000000000000"

/-- An event of the demo worker about the one phase of the run. -/
def demoEvent (type : String) : Val ℚ :=
  dictOf [("type", .str (py type)), ("run_id", .str (py "run")),
    ("phase_execution_id", .str demoExecutionId), ("actual_start_us", .int 100000)]

/-- The worker is called and answers with the value. -/
def demoExchange (value : Val ℚ) : List (System.Label ℚ) :=
  [.task (py "run") (.begin (py "demo_robot")),
    .task (py "run") (.reply (py "demo_robot") (.returned value)),
    .task (py "run") (.resume 0 none)]

def demoReport (type : String) : List (System.Label ℚ) :=
  [.task (py "run") (.event (py "demo_robot") (demoEvent type)), .task (py "run") (.resume 0 none)]

/-- The demo run with a worker that does what it is told. -/
def demoComplete : List (System.Label ℚ) :=
  demoCall "run" "arm" :: demoExchange .none ++ demoExchange .none ++
    demoExchange (dictOf [("status", .str (py "scheduled")), ("run_id", .str (py "run")),
      ("phase_execution_id", .str demoExecutionId)]) ++
    demoReport "phase_started" ++ demoReport "phase_completed" ++ demoExchange .none

set_option maxRecDepth 20000 in
theorem System.journal_words_demo : ∃ s : System ℚ,
    Transition.run (System.step demoSetup) {} demoComplete = some s ∧
      (s.entriesOf (py "run")).length = 7 ∧
      ∃ n stage, Word n stage (s.entriesOf (py "run")) := by
  have hrun : (Transition.run (System.step demoSetup) {} demoComplete).any (fun s =>
      (s.entriesOf (py "run")).length = 7) = true := by decide +kernel
  obtain ⟨s, hs, hlen⟩ := (Option.any_eq_true _ _).1 hrun
  obtain ⟨n, stage, hword, -⟩ := journal_words demoSetup initial_empty
    (fun r => ⟨0, .unopened, .nil⟩) ⟨demoComplete, hs⟩ (py "run")
  exact ⟨s, hs, of_decide_eq_true hlen, n, stage, hword⟩

end Demo

end RemoteRobot
