import RemoteRobot.Journal.Replay
import RemoteRobot.Orchestrator.Lifecycle

/-!
# Node names in the journal

The entries of a run have the names of its workers as mapping keys, and the journal refuses mapping
keys that look like secrets.  So a run whose workers return plain data writes all its entries
exactly when no participant has such a name (`System.entries_journalable_iff`); the registry admits
`arm_token` and `cookie`.
-/

namespace RemoteRobot

open Py Except

variable {F : Type}

/-! ## Plain data -/

section Plain

variable [PyFloat F] [PyText F]

/-- `_validate_plain_data` accepts the value. -/
def PlainData (v : Val F) : Prop := ∀ path, validatePlainData v path = .ok ()

/-- `append` accepts the event. -/
def Journalable (event : Val F) : Prop := ∃ data, eventData event = .ok data

@[simp] theorem plainData_none : PlainData (.none : Val F) := fun _ => rfl

@[simp] theorem plainData_bool (b : Bool) : PlainData (.bool b : Val F) := fun _ => rfl

@[simp] theorem plainData_int (n : ℤ) : PlainData (.int n : Val F) := fun _ => rfl

@[simp] theorem plainData_str (s : Str) : PlainData (.str s : Val F) := fun _ => rfl

theorem plainData_list {vs : List (Val F)} (h : ∀ v ∈ vs, PlainData v) : PlainData (.list vs) := by
  intro path
  rw [validatePlainData]
  generalize 0 = index
  induction vs generalizing index with
  | nil => rfl
  | cons v vs ih =>
    rw [List.forall_mem_cons] at h
    rw [validateItems, bind_eq_ok]
    exact ⟨(), h.1 _, ih h.2 _⟩

theorem plainData_dict {kvs : Dict F}
    (h : ∀ p ∈ kvs, ∃ key, p.1 = .str key ∧ looksSecret F key = false ∧ PlainData p.2) :
    PlainData (.dict kvs) := by
  intro path
  rw [validatePlainData]
  refine validateEntries_eq_ok.2 fun p hp => ?_
  obtain ⟨key, hkey, hsecret, hplain⟩ := h p hp
  exact ⟨key, hkey, hsecret, hplain _⟩

theorem plainData_strList (ss : List Str) : PlainData (strList ss : Val F) := by
  refine plainData_list fun v hv => ?_
  obtain ⟨s, -, rfl⟩ := List.mem_map.1 hv
  exact plainData_str s

@[simp] theorem plainData_optStr (s : Option Str) : PlainData (Task.optStr s : Val F) := by
  cases s <;> simp [Task.optStr]

@[simp] theorem plainData_optNat (n : Option ℕ) : PlainData (Task.optNat n : Val F) := by
  cases n <;> simp [Task.optNat]

/-! ## The keys of the entries -/

omit [PyFloat F] in
/-- `str.casefold` keeps lower-case ASCII text. -/
class LawfulText (F : Type) [PyText F] : Prop where
  casefold_lower : ∀ s : Str, (∀ c ∈ s, c < 128 ∧ ¬(65 ≤ c ∧ c ≤ 90)) → PyText.casefold F s = s

instance : LawfulText ℚ where
  casefold_lower s h := by
    show s.map _ = s
    conv_rhs => rw [← List.map_id s]
    exact List.map_congr_left fun c hc => if_neg (h c hc).2

/-- The keys `_execute_leased` and `_safe_results` write out. -/
def entryKeys : List String :=
  ["type", "identity_id", "root_id", "manifest_hash", "program_sha256", "lease", "leaves",
    "resources", "safety_domains", "workers", "phase_id", "phase_execution_id", "phase_index",
    "start_at_monotonic_us", "observed_start_skew_us", "max_start_skew_us", "phase_count",
    "safe_idle", "error_type", "safe_stop", "ok", "result", "result_type"]

variable [LawfulText F]

omit [PyFloat F] in
theorem not_looksSecret_entryKeys : ∀ k ∈ entryKeys, looksSecret F (py k) = false := by
  have hlower : ∀ k ∈ entryKeys, ∀ c ∈ (py k : Str), c < 128 ∧ ¬(65 ≤ c ∧ c ≤ 90) := by
    decide +kernel
  have hsecret : ∀ k ∈ entryKeys, (let normalized := (py k).map fun c => if c = 45 ∨ c = 32 then 95 else c
      forbiddenKeys.any (fun s => normalized == py s) ||
        secretSuffixes.any fun s => (py s).isSuffixOf normalized) = false := by
    decide +kernel
  intro k hk
  unfold looksSecret
  rw [LawfulText.casefold_lower _ (hlower k hk)]
  exact hsecret k hk

/-- A record of the orchestrator is plain when its fields are, and `append` accepts it. -/
theorem plainData_dictOf {kvs : List (String × Val F)}
    (h : ∀ p ∈ kvs, p.1 ∈ entryKeys ∧ PlainData p.2) : PlainData (dictOf kvs) := by
  refine plainData_dict fun p hp => ?_
  obtain ⟨q, hq, rfl⟩ := List.mem_map.1 hp
  exact ⟨_, rfl, not_looksSecret_entryKeys _ (h q hq).1, (h q hq).2⟩

theorem journalable_dictOf {kvs : List (String × Val F)}
    (h : ∀ p ∈ kvs, p.1 ∈ entryKeys ∧ PlainData p.2) : Journalable (dictOf kvs) := by
  have hreserved : ∀ k ∈ reservedEventKeys, k ∉ entryKeys := by decide
  refine ⟨_, eventData_eq_ok.2 ⟨rfl, fun k hk => ?_, plainData_dictOf h _⟩⟩
  rw [← Bool.not_eq_true, hasStr_iff]
  intro hmem
  simp only [entries, List.map_map, List.mem_map, Function.comp_apply, Key.str.injEq, py_inj] at hmem
  obtain ⟨p, hp, rfl⟩ := hmem
  exact hreserved _ hk (h p hp).1

end Plain

/-! ## Clean runs -/

section Clean

variable [PyFloat F] [PyText F]

/-- What a worker answers or reports is plain data. -/
def Task.Label.Clean : Task.Label F → Prop
  | .reply _ (.returned v) | .event _ v => PlainData v
  | _ => True

namespace Task

/-- The run deals with its participants, and what they said is plain data. -/
structure Clean (t : Task F) : Prop where
  calls : ∀ fan calls cancelled, t.pc = .fanOut fan calls cancelled → ∀ c ∈ calls,
    c.worker ∈ t.participants ∧ ∀ v, c.status = .finished (.returned v) → PlainData v
  waits : ∀ k startAtUs stage waits, t.pc = .waiting k startAtUs stage waits → ∀ x ∈ waits,
    x.worker ∈ t.participants ∧ ∀ e, x.status = .got e → PlainData e

variable {t t' : Task F}

theorem Clean.of_fanOut {fan : Fan} {calls : List (Call F)} {cancelled : Bool}
    (hpc : t.pc = .fanOut fan calls cancelled) (h : ∀ c ∈ calls, c.worker ∈ t.participants ∧
      ∀ v, c.status = .finished (.returned v) → PlainData v) : t.Clean := by
  refine ⟨fun fan' calls' cancelled' hpc' => ?_, fun k startAtUs stage waits hpc' => ?_⟩
  · rw [hpc] at hpc'
    cases hpc'
    exact h
  · rw [hpc] at hpc'
    cases hpc'

theorem Clean.of_waiting {k startAtUs : ℕ} {stage : WaitStage} {waits : List (Wait F)}
    (hpc : t.pc = .waiting k startAtUs stage waits) (h : ∀ x ∈ waits, x.worker ∈ t.participants ∧
      ∀ e, x.status = .got e → PlainData e) : t.Clean := by
  refine ⟨fun fan' calls' cancelled' hpc' => ?_, fun k startAtUs stage waits hpc' => ?_⟩
  · rw [hpc] at hpc'
    cases hpc'
  · rw [hpc] at hpc'
    cases hpc'
    exact h

theorem Clean.stopAll (failure : Option Failure) : (t.stopAll failure).Clean := by
  refine .of_fanOut rfl fun c hc => ?_
  obtain ⟨w, hw, rfl⟩ := List.mem_map.1 hc
  exact ⟨hw, nofun⟩

theorem Clean.resumed (h : t.Clean) (hr : Resumed t t') : t'.Clean := by
  cases hr with
  | fail => exact .stopAll _
  | complete => exact .stopAll _
  | prepare hbefore hphase hplans hq hpart =>
    refine .of_fanOut rfl fun c hc => ?_
    obtain ⟨p, hp, rfl⟩ := mem_prepareCalls.1 hc
    exact ⟨hpart p hp, nofun⟩
  | start hpc =>
    refine .of_fanOut rfl fun c hc => ?_
    obtain ⟨c₀, hc₀, rfl⟩ := List.mem_map.1 hc
    exact ⟨(h.calls _ _ _ hpc c₀ hc₀).1, nofun⟩
  | awaitStarted hpc =>
    refine .of_waiting rfl fun x hx => ?_
    obtain ⟨w, hw, rfl⟩ := List.mem_map.1 hx
    obtain ⟨c, hc, rfl⟩ := List.mem_map.1 hw
    exact ⟨(h.calls _ _ _ hpc c hc).1, nofun⟩
  | awaitCompleted hpc =>
    refine .of_waiting rfl fun x hx => ?_
    obtain ⟨w, hw, rfl⟩ := List.mem_map.1 hx
    obtain ⟨y, hy, rfl⟩ := List.mem_map.1 hw
    exact ⟨(h.waits _ _ _ _ hpc y hy).1, nofun⟩
  | drain | completed | failed => exact ⟨nofun, nofun⟩

omit [PyFloat F] [PyText F] in
theorem mem_setWaitStatus {w : Str} {status : WaitStatus F} {waits : List (Wait F)} {x : Wait F}
    (h : x ∈ setWaitStatus w status waits) :
    ∃ y ∈ waits, y.worker = x.worker ∧ (x = y ∨ x.status = status) := by
  obtain ⟨y, hy, rfl⟩ := List.mem_map.1 h
  refine ⟨y, hy, ?_⟩
  split_ifs
  · exact ⟨rfl, .inr rfl⟩
  · exact ⟨rfl, .inl rfl⟩

theorem Clean.move {l : Label F} (h : t.Clean) (hl : l.Clean) (hm : Move t l t') : t'.Clean := by
  cases hm with
  | resumed hr => exact h.resumed hr
  | sent hpc =>
    refine .of_fanOut rfl fun c hc => ?_
    obtain ⟨c₀, hc₀, hw, -, ⟨-, rfl⟩ | ⟨-, hs⟩⟩ := mem_setStatus hc
    · exact h.calls _ _ _ hpc c hc₀
    · exact ⟨hw ▸ (h.calls _ _ _ hpc c₀ hc₀).1, fun v hv => by rw [hs] at hv; cases hv⟩
  | finished hpc =>
    refine .of_fanOut rfl fun c hc => ?_
    obtain ⟨c₀, hc₀, hw, -, ⟨-, rfl⟩ | ⟨-, hs⟩⟩ := mem_setStatus hc
    · exact h.calls _ _ _ hpc c hc₀
    · refine ⟨hw ▸ (h.calls _ _ _ hpc c₀ hc₀).1, fun v hv => ?_⟩
      rw [hs] at hv
      cases hv
      exact hl
  | cancelCalls hpc =>
    refine .of_fanOut rfl fun c hc => ?_
    obtain ⟨⟨w, command, status⟩, hc₀, rfl⟩ := List.mem_map.1 hc
    have hc₀' := h.calls _ _ _ hpc _ hc₀
    cases status with
    | created => exact ⟨hc₀'.1, nofun⟩
    | running | finished => exact hc₀'
  | @delivered k startAtUs stage waits w event hpc hwait =>
    refine .of_waiting rfl fun x hx => ?_
    obtain ⟨y, hy, hw, rfl | hs⟩ := mem_setWaitStatus hx
    · exact h.waits _ _ _ _ hpc x hy
    · refine ⟨hw ▸ (h.waits _ _ _ _ hpc y hy).1, fun e he => ?_⟩
      have hgot : t.classify stage event = .got e := hs.symm.trans he
      have hsame : e = event := by
        unfold classify at hgot
        split at hgot
        · dsimp only at hgot
          split_ifs at hgot
          exact (WaitStatus.got.inj hgot).symm
        · cases hgot
      rw [hsame]
      exact hl
  | waitFailed hpc =>
    refine .of_waiting rfl fun x hx => ?_
    obtain ⟨y, hy, hw, rfl | hs⟩ := mem_setWaitStatus hx
    · exact h.waits _ _ _ _ hpc x hy
    · exact ⟨hw ▸ (h.waits _ _ _ _ hpc y hy).1, fun e he => by rw [hs] at he; cases he⟩
  | cancelWaits | drained => exact ⟨nofun, nofun⟩

/-! ## The entries of a clean run -/

variable [LawfulText F]

theorem plainData_safeResult {r : Reply F} (h : ∀ v, r = .returned v → PlainData v) :
    PlainData (safeResult r) := by
  cases r with
  | raised errorType => exact plainData_dictOf (by simp [entryKeys])
  | returned v =>
    have hv := h v rfl
    cases v with
    | dict kvs => exact plainData_dictOf (by simp [entryKeys, hv])
    | none | bool | int | float | str | bytes | list | tuple =>
      exact plainData_dictOf (by simp [entryKeys])

theorem plainData_safeResults {calls : List (Call F)} (h : ∀ c ∈ calls,
    looksSecret F c.worker = false ∧ ∀ v, c.status = .finished (.returned v) → PlainData v) :
    PlainData (safeResults calls) := by
  refine plainData_dict fun p hp => ?_
  obtain ⟨⟨w, command, status⟩, hc, hp⟩ := List.mem_filterMap.1 hp
  obtain ⟨r, hr, rfl⟩ := Option.map_eq_some_iff.1 hp
  obtain ⟨hsecret, hv⟩ := h _ hc
  refine ⟨w, rfl, hsecret, plainData_safeResult fun v hrv => hv v ?_⟩
  cases status with
  | finished reply => rw [← hrv, Option.some.inj hr]
  | created | running => cases hr

theorem plainData_safeEvents {waits : List (Wait F)} (h : ∀ x ∈ waits,
    looksSecret F x.worker = false ∧ ∀ e, x.status = .got e → PlainData e) :
    PlainData (safeEvents waits) := by
  refine plainData_dict fun p hp => ?_
  obtain ⟨⟨w, status⟩, hx, hp⟩ := List.mem_filterMap.1 hp
  obtain ⟨e, he, rfl⟩ := Option.map_eq_some_iff.1 hp
  obtain ⟨hsecret, hv⟩ := h _ hx
  refine ⟨w, rfl, hsecret, plainData_safeResult fun v hrv => hv v ?_⟩
  cases status with
  | got event => rw [← Reply.returned.inj hrv, Option.some.inj he]
  | waiting | failed => cases he

theorem journalable_phaseEvent {type : String} {k : ℕ} {extra : List (String × Val F)}
    (h : ∀ p ∈ extra, p.1 ∈ entryKeys ∧ PlainData p.2) : Journalable (t.phaseEvent type k extra) := by
  refine journalable_dictOf fun p hp => ?_
  rcases List.mem_append.1 hp with hp | hp
  · simp only [List.mem_cons, List.not_mem_nil, or_false] at hp
    obtain rfl | rfl | rfl | rfl := hp <;> simp [entryKeys]
  · exact h p hp

omit [LawfulText F] in
theorem journalable_append {event : Val F} {appendError : Option Str} {next : Task F}
    (h : Journalable event) : ∀ e ∈ (t.append event appendError next).2, Journalable e := by
  intro e he
  unfold append at he
  cases appendError with
  | none =>
    cases he
    exact h
  | some errorType => cases he

variable [Cbor F] [Sha256] {cfg : Setup F}

theorem journalable_afterStarted {k startAtUs : ℕ} {waits : List (Wait F)} {appendError : Option Str}
    (h : PlainData (safeEvents waits)) :
    ∀ e ∈ (t.afterStarted cfg k startAtUs waits appendError).2, Journalable e := by
  unfold afterStarted
  split
  · nofun
  · split
    · nofun
    · exact journalable_append (journalable_phaseEvent (by simp [entryKeys, h]))

theorem journalable_afterFanOut {fan : Fan} {calls : List (Call F)} {nowUs : ℕ}
    {appendError : Option Str} (h : PlainData (safeResults calls)) :
    ∀ e ∈ (t.afterFanOut cfg fan calls nowUs appendError).2, Journalable e := by
  cases fan with
  | disable =>
    simp only [afterFanOut]
    split_ifs
    · intro e he
      cases he
    · exact journalable_append (journalable_dictOf (by simp [entryKeys, h]))
  | prepare k =>
    simp only [afterFanOut]
    split_ifs
    · intro e he
      cases he
    · exact journalable_append (journalable_phaseEvent (by simp [entryKeys, h]))
  | start k startAtUs =>
    simp only [afterFanOut]
    split_ifs
    · intro e he
      cases he
    · exact journalable_append (journalable_phaseEvent (by simp [entryKeys, h]))
  | stop failure =>
    cases failure with
    | none =>
      simp only [afterFanOut]
      split_ifs
      · intro e he
        cases he
      · exact journalable_append (journalable_dictOf (by simp [entryKeys, h]))
    | some failure =>
      simp only [afterFanOut]
      split_ifs
      · intro e he
        cases he
        exact journalable_dictOf (by simp [entryKeys, h])
      · intro e he
        cases he

/-- What a clean run builds is accepted when no participant's name looks like a secret. -/
theorem Clean.journalable (h : t.Clean) (hnames : ∀ w ∈ t.participants, looksSecret F w = false)
    {l : Label F} {event : Val F} (hs : t.step cfg l = some (t', some event)) :
    Journalable event := by
  have hresume : ∀ nowUs appendError, l = .resume nowUs appendError →
      t.resume cfg nowUs appendError = some (t', some event) := by
    rintro nowUs appendError rfl
    exact hs
  cases l with
  | resume nowUs appendError =>
    have hs := hresume nowUs appendError rfl
    unfold resume at hs
    split at hs
    · rename_i fan calls cancelled hpc
      have hcalls : PlainData (safeResults calls) :=
        plainData_safeResults fun c hc =>
          ⟨hnames _ (h.calls _ _ _ hpc c hc).1, (h.calls _ _ _ hpc c hc).2⟩
      split_ifs at hs
      · split at hs <;> cases hs
      · have he := congrArg Prod.snd (Option.some.inj hs)
        exact journalable_afterFanOut hcalls event he
    · rename_i k startAtUs stage waits hpc
      have hevents : PlainData (safeEvents waits) :=
        plainData_safeEvents fun x hx =>
          ⟨hnames _ (h.waits _ _ _ _ hpc x hx).1, (h.waits _ _ _ _ hpc x hx).2⟩
      split_ifs at hs
      · cases hs
      · cases stage with
        | started =>
          have he := congrArg Prod.snd (Option.some.inj hs)
          exact journalable_afterStarted hevents event he
        | completed =>
          have he := congrArg Prod.snd (Option.some.inj hs)
          exact journalable_append (journalable_phaseEvent (by simp [entryKeys, hevents])) event he
    · split_ifs at hs
      cases hs
    · cases hs
  | begin | reply | event | waitError | waiterEnd | cancel =>
    obtain ⟨_, -, hpair⟩ := Option.map_eq_some_iff.1 hs
    cases hpair

end Task

end Clean

/-! ## A run in which every worker answers -/

section Answers

variable [PyFloat F] [PyText F]

namespace Task

/-- The answered call of a worker in the first fan-out. -/
def answeredCall (w : Str) : Call F := ⟨w, .prepareDisabled, .finished (.returned (.dict []))⟩

def createdCall (w : Str) : Call F := ⟨w, .prepareDisabled, .created⟩

omit [PyFloat F] [PyText F] in
theorem find?_middle {f : Str → Call F} (hf : ∀ w, (f w).worker = w) {pre : List Str} {w : Str}
    (hw : w ∉ pre) (c : Call F) (hc : c.worker = w) (rest : List (Call F)) :
    (pre.map f ++ c :: rest).find? (fun c => c.worker = w) = some c := by
  rw [List.find?_append, List.find?_eq_none.2, Option.none_or, List.find?_cons_of_pos (by simpa using hc)]
  intro c' hc'
  obtain ⟨w', hw', rfl⟩ := List.mem_map.1 hc'
  simp only [hf, decide_eq_true_eq]
  exact fun he => hw (he ▸ hw')

omit [PyFloat F] [PyText F] in
theorem setStatus_middle {f g : Str → Call F} (hf : ∀ w, (f w).worker = w)
    (hg : ∀ w, (g w).worker = w) {pre post : List Str} {w : Str} (hw : w ∉ pre) (hw' : w ∉ post)
    {c : Call F} (hc : c.worker = w) (status : CallStatus F) :
    setStatus w status (pre.map f ++ c :: post.map g) =
      pre.map f ++ { c with status := status } :: post.map g := by
  have hother : ∀ (h : Str → Call F), (∀ w, (h w).worker = w) → ∀ ws : List Str, w ∉ ws →
      setStatus w status (ws.map h) = ws.map h := by
    intro h hh ws hws
    unfold setStatus
    rw [List.map_map]
    refine List.map_congr_left fun w' hw' => if_neg ?_
    rw [hh]
    exact fun he => hws (he ▸ hw')
  have hpre := hother f hf pre hw
  have hpost := hother g hg post hw'
  unfold setStatus at hpre hpost ⊢
  rw [List.map_append, List.map_cons, hpre, hpost, if_pos hc]

variable {t : Task F} {pre ws : List Str} {w : Str}

omit [PyFloat F] [PyText F] in
theorem exists_begin (hw : w ∉ pre) (hws : w ∉ ws) (hpc : t.pc = .fanOut .disable
      (pre.map answeredCall ++ (w :: ws).map createdCall) false) :
    ∃ t', t.begin w = some t' ∧ t'.pc = .fanOut .disable
      (pre.map answeredCall ++ ⟨w, .prepareDisabled, .running⟩ :: ws.map createdCall) false := by
  have hset := setStatus_middle (F := F) (f := answeredCall) (g := createdCall) (fun _ => rfl)
    (fun _ => rfl) hw hws (c := createdCall w) rfl .running
  rw [List.map_cons] at hpc
  unfold Task.begin
  rw [hpc]
  simp only
  rw [find?_middle (fun _ => rfl) hw _ rfl, hset]
  exact ⟨_, rfl, rfl⟩

omit [PyFloat F] [PyText F] in
theorem exists_answer (hw : w ∉ pre) (hws : w ∉ ws) (hpc : t.pc = .fanOut .disable
      (pre.map answeredCall ++ ⟨w, .prepareDisabled, .running⟩ :: ws.map createdCall) false) :
    ∃ t', t.answer w (.returned (.dict [])) = some t' ∧ t'.pc = .fanOut .disable
      ((pre ++ [w]).map answeredCall ++ ws.map createdCall) false := by
  have hset := setStatus_middle (F := F) (f := answeredCall) (g := createdCall) (fun _ => rfl)
    (fun _ => rfl) hw hws (c := ⟨w, .prepareDisabled, .running⟩) rfl
    (.finished (.returned (.dict [])))
  have hsplit : (pre ++ [w]).map answeredCall ++ ws.map createdCall =
      (pre.map answeredCall ++ answeredCall w :: ws.map createdCall : List (Call F)) := by simp
  unfold Task.answer
  rw [hpc]
  simp only
  rw [find?_middle (fun _ => rfl) hw _ rfl, hset, hsplit]
  exact ⟨_, rfl, rfl⟩

end Task

namespace System

variable [Cbor F] [Sha256] {cfg : Setup F}

/-- Each of the workers is called and answers with an empty dictionary. -/
def answers (runId : Str) (ws : List Str) : List (Label F) :=
  ws.flatMap fun w =>
    [.task runId (.begin w), .task runId (.reply w (.returned (.dict [])))]

theorem step_task (cfg : Setup F) {s : System F} {runId : Str} {t t' : Task F} {l : Task.Label F}
    {event : Option (Val F)} (ht : s.tasks.get runId = some t)
    (h : t.step cfg l = some (t', event)) :
    s.step cfg (.task runId l) = some (s.commit runId t' event) := by
  show (s.tasks.get runId).bind _ = _
  rw [ht, Option.bind_some, h]
  rfl

theorem exists_answered (cfg : Setup F) {s : System F} {runId : Str} {t : Task F}
    (ht : s.tasks.get runId = some t) {pre ws : List Str} (hnd : (pre ++ ws).Nodup)
    (hpc : t.pc = .fanOut .disable (pre.map Task.answeredCall ++ ws.map Task.createdCall) false) :
    ∃ s' t', Transition.run (System.step cfg) s (answers runId ws) = some s' ∧
      s'.tasks.get runId = some t' ∧
      t'.pc = .fanOut .disable ((pre ++ ws).map Task.answeredCall) false := by
  induction ws generalizing s t pre with
  | nil => exact ⟨s, t, rfl, ht, by simpa using hpc⟩
  | cons w ws ih =>
    obtain ⟨hpre, hws, hdisj⟩ := List.nodup_append.1 hnd
    rw [List.nodup_cons] at hws
    have hw : w ∉ pre := fun h => hdisj w h w (List.mem_cons_self ..) rfl
    obtain ⟨t₁, hbegin, hpc₁⟩ := Task.exists_begin hw hws.1 hpc
    obtain ⟨t₂, hanswer, hpc₂⟩ := Task.exists_answer hw hws.1 hpc₁
    have h₁ := step_task cfg ht (l := .begin w) (congrArg (Option.map (·, none)) hbegin)
    have ht₁ : (s.commit runId t₁ none).tasks.get runId = some t₁ := Table.get_insert_self ..
    have h₂ := step_task cfg ht₁ (l := .reply w (.returned (.dict [])))
      (congrArg (Option.map (·, none)) hanswer)
    have ht₂ : ((s.commit runId t₁ none).commit runId t₂ none).tasks.get runId = some t₂ :=
      Table.get_insert_self ..
    obtain ⟨s', t', hrun, ht', hpc'⟩ := ih ht₂ (show (pre ++ [w] ++ ws).Nodup by simpa using hnd) hpc₂
    refine ⟨s', t', ?_, ht', by simpa using hpc'⟩
    exact Transition.run_cons_eq_some.2 ⟨_, h₁, Transition.run_cons_eq_some.2 ⟨_, h₂, hrun⟩⟩

/-! ## All runs after `run.opened` -/

/-- What the workers say in the step is plain data. -/
def Label.Clean : Label F → Prop
  | .task _ l => l.Clean
  | .call .. => True

/-- The next statement of the run builds the entry. -/
def Builds (cfg : Setup F) (s : System F) (runId : Str) (event : Val F) : Prop :=
  ∃ t l t', s.tasks.get runId = some t ∧ t.step cfg l = some (t', some event)

/-- The run is clean, and its run ID has an entry. -/
def CleanRun (r : Run F) (runId : Str) (s : System F) : Prop :=
  (∃ t, s.tasks.get runId = some t ∧ t.toRun = r ∧ t.Clean) ∧ s.entriesOf runId ≠ []

theorem CleanRun.step {r : Run F} {runId : Str} {s s' : System F} {l : Label F}
    (h : s.CleanRun r runId) (hl : l.Clean) (hs : s.step cfg l = some s') : s'.CleanRun r runId := by
  obtain ⟨⟨t, ht, hrun, hclean⟩, hne⟩ := h
  cases l with
  | call runId' identityId program ns appendError =>
    cases ho : s.openRun cfg runId' identityId program ns appendError with
    | mk s₁ result =>
      obtain rfl : s₁ = s' := by
        rw [System.step, ho] at hs
        exact Option.some.inj hs
      rcases openRun_writes ho with ⟨hj, htasks⟩ | ⟨t', event, hempty, -, -, hj, htasks⟩
      · refine ⟨⟨t, ?_, hrun, hclean⟩, ?_⟩
        · rw [htasks]
          exact ht
        · unfold entriesOf at hne ⊢
          rw [hj]
          exact hne
      · have hr : runId ≠ runId' := by
          rintro rfl
          exact hne hempty
        refine ⟨⟨t, ?_, hrun, hclean⟩, ?_⟩
        · rw [htasks, Table.get_insert, if_neg hr]
          exact ht
        · rw [entriesOf_append (some event) hj, if_neg hr, List.append_nil]
          exact hne
  | task runId' label =>
    obtain ⟨t₁, ht₁, hs⟩ := Option.bind_eq_some_iff.1 hs
    obtain ⟨⟨t', event⟩, hstep, rfl⟩ := Option.map_eq_some_iff.1 hs
    have hm := Task.move_of_step hstep
    constructor
    · rw [commit_tasks]
      by_cases hr : runId = runId'
      · rw [hr, ht₁] at ht
        obtain rfl := Option.some.inj ht
        refine ⟨t', ?_, (Task.toRun_of_move hm).trans hrun, hclean.move hl hm⟩
        rw [Table.get_insert, if_pos hr]
      · refine ⟨t, ?_, hrun, hclean⟩
        rw [Table.get_insert, if_neg hr]
        exact ht
    · rw [entriesOf_append event rfl]
      exact List.append_ne_nil_of_left_ne_nil hne _

theorem openRun_journal {s s' : System F} {runId identityId : Str} {program : CompiledProgram F}
    {ns : ℕ} {appendError : Option (Error F)} {t : Task F}
    (h : s.openRun cfg runId identityId program ns appendError = (s', .ok t)) :
    ∃ rootId manifestHash checked receipt, s'.journal = s.journal ++
      [(runId, openedEvent identityId rootId manifestHash checked receipt)] := by
  unfold openRun at h
  split_ifs at h
  · cases h
  split at h
  · cases h
  · split at h
    · cases h
    · split at h
      · cases h
        exact ⟨_, _, _, _, rfl⟩
      all_goals cases h

theorem openRun_opened {s s' : System F} {runId identityId : Str} {program : CompiledProgram F}
    {ns : ℕ} {appendError : Option (Error F)} {t : Task F}
    (h : s.openRun cfg runId identityId program ns appendError = (s', .ok t)) :
    t.Opened cfg ∧ s'.tasks = s.tasks.insert runId t := by
  rcases openRun_cases h with ⟨-, e, he⟩ | ⟨-, e, _, _, _, -, he, -⟩ |
    ⟨-, t', locks, leases, event, hr, -, hopen, -, rfl⟩
  · cases he
  · cases he
  · rw [Except.ok.inj hr]
    exact ⟨hopen, rfl⟩

end System

end Answers

section Entries

variable [PyFloat F] [PyText F] [LawfulText F] [Cbor F] [Sha256]

namespace System

omit [Cbor F] [Sha256] in
theorem journalable_openedEvent (identityId rootId manifestHash : Str) (program : CompiledProgram F)
    (receipt : LeaseReceipt) :
    Journalable (openedEvent identityId rootId manifestHash program receipt) := by
  have hlease : PlainData (dictOf [("leaves", strList receipt.request.leafIds),
      ("resources", strList receipt.request.resourceKeys),
      ("safety_domains", strList receipt.request.safetyDomainKeys)] : Val F) :=
    plainData_dictOf (by simp [entryKeys, plainData_strList])
  exact journalable_dictOf (by simp [entryKeys, hlease])

omit [LawfulText F] in
/-- A participant whose name looks like a secret spoils the first entry with results. -/
theorem exists_refused {cfg : Setup F} {s₁ s₂ : System F} {runId identityId : Str}
    {program : CompiledProgram F} {ns : ℕ} {appendError : Option (Error F)} {t : Task F}
    (hopen : s₁.openRun cfg runId identityId program ns appendError = (s₂, .ok t)) {w : Str}
    (hw : w ∈ t.participants) (hsecret : looksSecret F w = true) :
    ∃ ls s event, Transition.run (System.step cfg) s₂ ls = some s ∧ (∀ l ∈ ls, l.Clean) ∧
      s.Builds cfg runId event ∧ ¬Journalable event := by
  obtain ⟨ho, htasks⟩ := openRun_opened hopen
  have ht : s₂.tasks.get runId = some t := by
    rw [htasks, Table.get_insert, if_pos rfl]
  have hcreated : t.pc = .fanOut .disable (([] : List Str).map Task.answeredCall ++
      t.participants.map Task.createdCall) false := ho.pc
  obtain ⟨s, t', hrun, ht', hpc⟩ := exists_answered cfg ht
    (show ([] ++ t.participants).Nodup from ho.callsOk.participants) hcreated
  rw [List.nil_append] at hpc
  have hfin : (t.participants.map (Task.answeredCall (F := F))).all
      (fun c => c.reply.isSome) = true := by simp [Task.answeredCall, Call.reply]
  have hok : (t.participants.map (Task.answeredCall (F := F))).any Call.isError = false := by
    simp [Task.answeredCall, Call.isError, Call.reply, Reply.isError]
  have hclean : ∀ l ∈ answers (F := F) runId t.participants, l.Clean := by
    intro l hl
    obtain ⟨w', -, hl⟩ := List.mem_flatMap.1 hl
    simp only [List.mem_cons, List.not_mem_nil, or_false] at hl
    obtain rfl | rfl := hl
    · trivial
    · exact plainData_dict (by simp)
  refine ⟨_, s, dictOf [("type", .str (py "workers.disabled")),
    ("workers", Task.safeResults (t.participants.map Task.answeredCall))], hrun, hclean, ?_, ?_⟩
  · refine ⟨t', .resume 0 none, t'.beginPhase 0, ht', ?_⟩
    show t'.resume cfg 0 none = _
    unfold Task.resume
    rw [hpc]
    simp only [hfin, if_true, Bool.false_eq_true, if_false, Task.afterFanOut, hok, Task.append]
  · rintro ⟨data, hdata⟩
    obtain ⟨-, -, hplain⟩ := eventData_eq_ok.1 hdata
    rw [dictOf, validatePlainData] at hplain
    obtain ⟨_, -, -, hworkers⟩ := validateEntries_eq_ok.1 hplain
      (.str (py "workers"), Task.safeResults (t.participants.map Task.answeredCall)) (by simp)
    rw [Task.safeResults, validatePlainData] at hworkers
    obtain ⟨key, hkey, hplain, -⟩ := validateEntries_eq_ok.1 hworkers
      (.str w, Task.safeResult (.returned (.dict [])))
      (List.mem_filterMap.2 ⟨Task.answeredCall w, List.mem_map_of_mem hw, rfl⟩)
    rw [← Key.str.inj hkey, hsecret] at hplain
    cases hplain

/-- A run that has opened with plain-data workers builds only entries `append` accepts, in every
interleaving, just when no participant's name looks like a secret. -/
theorem entries_journalable_iff (cfg : Setup F) {s₁ s₂ : System F} {runId identityId : Str}
    {program : CompiledProgram F} {ns : ℕ} {appendError : Option (Error F)} {t : Task F}
    (hopen : s₁.openRun cfg runId identityId program ns appendError = (s₂, .ok t)) :
    (∃ event, s₂.journal = s₁.journal ++ [(runId, event)] ∧ Journalable event) ∧
    ((∀ ls s event, Transition.run (System.step cfg) s₂ ls = some s → (∀ l ∈ ls, l.Clean) →
        s.Builds cfg runId event → Journalable event) ↔
      ∀ w ∈ t.participants, looksSecret F w = false) := by
  obtain ⟨ho, htasks⟩ := openRun_opened hopen
  obtain ⟨rootId, manifestHash, checked, receipt, hj⟩ := openRun_journal hopen
  have ht : s₂.tasks.get runId = some t := by
    rw [htasks, Table.get_insert, if_pos rfl]
  refine ⟨⟨_, hj, journalable_openedEvent ..⟩, ?_, ?_⟩
  · intro h w hw
    by_contra hsecret
    obtain ⟨ls, s, event, hrun, hclean, hbuilds, hrefused⟩ :=
      exists_refused hopen hw (Bool.eq_false_iff.not_left.1 hsecret)
    exact hrefused (h ls s event hrun hclean hbuilds)
  · intro hnames ls s event hrun hclean ⟨t', l, t'', ht', hstep⟩
    have hstart : s₂.CleanRun t.toRun runId := by
      refine ⟨⟨t, ht, rfl, .of_fanOut ho.pc fun c hc => ?_⟩, ?_⟩
      · obtain ⟨w, hw, rfl⟩ := List.mem_map.1 hc
        exact ⟨hw, nofun⟩
      · rw [entriesOf_append (some _) hj, if_pos rfl]
        exact List.append_ne_nil_of_right_ne_nil _ (List.cons_ne_nil _ _)
    obtain ⟨⟨t₁, ht₁, hrun₁, hclean₁⟩, -⟩ := Transition.run_invariant_along
      (fun _ _ _ h hl hs => h.step hl hs) hrun (Transition.along_of_forall hclean) hstart
    rw [ht₁] at ht'
    obtain rfl := Option.some.inj ht'
    refine hclean₁.journalable ?_ hstep
    rw [hrun₁]
    exact hnames

end System

end Entries

/-! ### A robot called `arm_token` -/

section Demo

local instance secretsHash : Sha256 := lengthHash

def tokenOperator : IdentitySpec :=
  { demoOperator with
    discover := [py "arm_token"], observe := [py "arm_token"], control := [py "arm_token.*"]
    emergencyStop := [py "arm_token"] }

def tokenRegistry : Registry ℚ :=
  { demoRegistry with
    nodes := [.physical { demoRobot with nodeId := py "arm_token" }], identities := [tokenOperator] }

set_option maxRecDepth 20000 in
theorem tokenRegistry_accepted : tokenRegistry.check = .ok () := by
  have hok : tokenRegistry.check.isOk = true := by decide +kernel
  obtain ⟨_, h⟩ := exists_of_isOk hok
  exact h

def tokenSetup : Setup ℚ :=
  { registry := ⟨tokenRegistry, tokenRegistry_accepted⟩, workers := [py "arm_token"] }

def tokenTemplate : Val ℚ :=
  dictOf [("format", .str templateFormat), ("version", .int 2), ("root_id", .str (py "arm_token")),
    ("phases", .list [dictOf [("phase_id", .str (py "move")),
      ("sequences", .list [dictOf [("group", .str (py "arm")),
        ("command_schema", .str normalizedPositionSchema), ("reference", .str (py "absolute")),
        ("samples", .list [
          dictOf [("t_us", .int 0), ("values", .list [.int 0])],
          dictOf [("t_us", .int 1000000), ("values", .list [.float (1 / 2)])]])]])]])]

/-- The first step of the run of that program. -/
def tokenOpen : Except (Error ℚ) (System ℚ × Task ℚ) := do
  let program ← compile tokenRegistry tokenTemplate
  match System.openRun tokenSetup {} (py "run") (py "example_operator") program 0 none with
  | (s, .ok t) => .ok (s, t)
  | (_, .error e) => .error e

set_option maxRecDepth 20000 in
theorem tokenOpen_eq_ok : ∃ program s t,
    System.openRun tokenSetup {} (py "run") (py "example_operator") program 0 none = (s, .ok t) ∧
      py "arm_token" ∈ t.participants := by
  have hsome : tokenOpen.toOption.any (fun r => decide (py "arm_token" ∈ r.2.participants)) = true := by
    decide +kernel
  obtain ⟨⟨s, t⟩, hr, hmem⟩ := (Option.any_eq_true _ _).1 hsome
  have hopen : tokenOpen = .ok (s, t) := toOption_eq_some.1 hr
  simp only [tokenOpen, bind_eq_ok] at hopen
  obtain ⟨program, -, hopen⟩ := hopen
  split at hopen
  · rename_i s' t' ho
    obtain ⟨rfl, rfl⟩ := Prod.mk.inj (Except.ok.inj hopen)
    exact ⟨program, s', t', ho, of_decide_eq_true hmem⟩
  · cases hopen

theorem armToken_looksSecret : looksSecret ℚ (py "arm_token") = true := by decide +kernel

theorem System.entries_journalable_token : ∃ program s₂ t,
    System.openRun tokenSetup {} (py "run") (py "example_operator") program 0 none = (s₂, .ok t) ∧
      ¬∀ ls s event, Transition.run (System.step tokenSetup) s₂ ls = some s → (∀ l ∈ ls, l.Clean) →
        s.Builds tokenSetup (py "run") event → Journalable event := by
  obtain ⟨program, s, t, hopen, hmem⟩ := tokenOpen_eq_ok
  refine ⟨program, s, t, hopen, fun h => ?_⟩
  have hfalse := (entries_journalable_iff tokenSetup hopen).2.1 h _ hmem
  rw [armToken_looksSecret] at hfalse
  cases hfalse

/-- The registry is accepted, the run opens, its worker answers with an empty dictionary, and the
journal refuses the entry. -/
theorem System.entries_counterexample : tokenRegistry.check = .ok () ∧ ∃ program s₂ t,
    System.openRun tokenSetup {} (py "run") (py "example_operator") program 0 none = (s₂, .ok t) ∧
      ∃ ls s event, Transition.run (System.step tokenSetup) s₂ ls = some s ∧ (∀ l ∈ ls, l.Clean) ∧
        s.Builds tokenSetup (py "run") event ∧ ¬Journalable event := by
  obtain ⟨program, s, t, hopen, hmem⟩ := tokenOpen_eq_ok
  exact ⟨tokenRegistry_accepted, program, s, t, hopen,
    exists_refused hopen hmem armToken_looksSecret⟩

end Demo

end RemoteRobot
