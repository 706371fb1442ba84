import RemoteRobot.Journal.Replay

/-!
# The history of a file journal

One file journal, opened, appended to, closed and opened again, without I/O failure.  `HistoryInv`
keeps three accounts of each run together: the calls of `append` that returned, the events in memory
and what the file loads as.  From it the numbers of the events, what `replay` returns and that the
file opens again with the same runs (`FileRunJournal.history_along`).

The runs are the same only where no first event of a run fails in `_frame`: `setdefault` has then
made the run known already, without events, and the file has nothing of it
(`FileRunJournal.history_counterexample`).
-/

namespace RemoteRobot

open Py Except Transition

variable {F : Type}

/-- A call of `append` that returned. -/
structure Appended (F : Type) where
  runId : Str
  event : Val F
  timeNs : ℕ

inductive HistoryStep (F : Type) where
  | append (runId event : Val F) (timeNs : ℕ)
  | close
  /-- close and open again -/
  | reopen (fsync : Bool)

/-- A journal, the runs it had when it was last opened, and the calls that returned. -/
structure History (F : Type) where
  journal : FileRunJournal F
  opened : List Str
  appended : List (Appended F) := []

namespace History

def appendedTo (s : History F) (r : Str) : List (Appended F) :=
  s.appended.filter fun c => c.runId = r

section Steps

variable [Cbor F] [Sha256] [PyFloat F] [PyText F]

def step (s : History F) : HistoryStep F → Option (History F)
  | .append runId event timeNs =>
    match s.journal.append (persistRecord false) runId event timeNs with
    | (journal, .ok item) =>
      some { s with journal, appended := s.appended ++ [⟨item.runId, event, timeNs⟩] }
    | (journal, .error _) => some { s with journal }
  | .close => some { s with journal := s.journal.close }
  | .reopen fsync => match openJournal (some s.journal.close.store.file) fsync with
    | .ok journal => some { s with journal, opened := journal.runIds }
    | .error (_ : JournalError F) => none

/-- The first event of a run can be framed. -/
def Framed (s : History F) : HistoryStep F → Prop
  | .append runId event timeNs => match s.journal.newItem runId event timeNs with
    | .ok item => item.eventSeq = 1 → (frame (dictOf item.record)).isOk = true
    | .error _ => True
  | _ => True

instance (s : History F) (l : HistoryStep F) : Decidable (s.Framed l) := by
  unfold Framed
  repeat' split
  all_goals infer_instance

end Steps

end History

/-! ## What a history is -/

/-- `e` is the event of the call, as it was passed or as it reads back. -/
structure Holds (read : Bool) (c : Appended F) (e : JournalEvent F) : Prop where
  runId : e.runId = c.runId
  recordedAtNs : e.recordedAtNs = c.timeNs
  event : if read then c.event.Reads (.dict e.event) else c.event = .dict e.event

/-- An event after the journal was opened again. -/
def ReadsBack (a b : JournalEvent F) : Prop := a = b ∨ ReadsAs a b

theorem ReadsBack.eventSeq {a b : JournalEvent F} (h : ReadsBack a b) :
    b.eventSeq = a.eventSeq := by
  obtain rfl | h := h
  · rfl
  · exact h.eventSeq

/-- The history of a journal that was first opened as `j`. -/
structure HistoryOk [Cbor F] [Sha256] [PyFloat F] [PyText F] (j : FileRunJournal F)
    (s : History F) : Prop where
  /-- the events of a run are those it was first opened with and those appended since, numbered from
  1, and `replay` returns those behind a number -/
  replay : ∀ r, validateRunId (.str r : Val F) = .ok r →
    ∃ new, List.Forall₂ (Holds (decide (r ∈ s.opened))) (s.appendedTo r) new ∧
      (∀ i e, (j.eventsOf r ++ new)[i]? = some e → e.eventSeq = i + 1) ∧
      ∀ k : ℕ, s.journal.replay (.str r) (.int k) = .ok ((j.eventsOf r ++ new).drop k)
  reopens : ∀ fsync, ∃ j' : FileRunJournal F,
    openJournal (some s.journal.close.store.file) fsync = .ok j' ∧
    j'.runIds = s.journal.runIds ∧
    ∀ r, List.Forall₂ ReadsBack (s.journal.eventsOf r) (j'.eventsOf r)
  refuses : ∀ r ∈ s.opened, ∀ event timeNs, ∃ e,
    s.journal.append (persistRecord false) (.str r) event timeNs = (s.journal, .error e)

/-! ## What a call of `append` does -/

section Append

variable [Cbor F] [Sha256] [PyFloat F] [PyText F] {j : FileRunJournal F} {runId event : Val F}
  {timeNs : ℕ}

omit [Cbor F] [Sha256] in
theorem newItem_parts {σ : Type} {j : RunJournal F σ} {item : JournalEvent F}
    (h : j.newItem runId event timeNs = .ok item) : item.runId ∉ j.recoveredRunIds ∧
      event = .dict item.event ∧ item.recordedAtNs = timeNs := by
  simp only [RunJournal.newItem, bind_eq_ok, raiseWhen_eq_ok, exists_unit] at h
  obtain ⟨owner, -, data, hd, -, hr, h⟩ := h
  obtain rfl := Except.ok.inj h
  exact ⟨hr, (eventData_eq_ok.1 hd).1, rfl⟩

theorem append_cases (j : FileRunJournal F) (runId event : Val F) (timeNs : ℕ) :
    (∃ e, j.append (persistRecord false) runId event timeNs = (j, .error e)) ∨
    (∃ item e, j.newItem runId event timeNs = .ok item ∧ (frame (dictOf item.record)).isOk = false ∧
      j.append (persistRecord false) runId event timeNs = ({ j with
        eventsByRun := j.eventsByRun.insert item.runId (j.eventsOf item.runId) }, .error e)) ∨
    ∃ item bytes, j.newItem runId event timeNs = .ok item ∧
      frame (dictOf item.record) = .ok bytes ∧
      j.append (persistRecord false) runId event timeNs = ({ j with
        store := { j.store with file := j.store.file ++ bytes }
        eventsByRun := j.eventsByRun.insert item.runId (j.eventsOf item.runId ++ [item]) },
        .ok item) := by
  unfold RunJournal.append persistRecord
  cases hi : j.newItem runId event timeNs with
  | error e => exact .inl ⟨e, rfl⟩
  | ok item =>
    cases hf : frame (dictOf item.record) with
    | error e =>
      refine .inr (.inl ⟨item, e, rfl, ?_, ?_⟩)
      · rw [hf]
        rfl
      · simp only [hf]
    | ok bytes =>
      refine .inr (.inr ⟨item, bytes, rfl, hf, ?_⟩)
      simp only [hf, Bool.and_false]
      rfl

omit [Cbor F] [Sha256] in
/-- A run that was in the file when the journal was opened. -/
theorem newItem_eq_error {σ : Type} {j : RunJournal F σ} {r : Str} (hr : r ∈ j.recoveredRunIds) :
    ∃ e, j.newItem (.str r) event timeNs = .error e := by
  cases h : j.newItem (.str r) event timeNs with
  | error e => exact ⟨e, rfl⟩
  | ok item =>
    obtain ⟨he, -, -⟩ := newItem_eq_ok h
    rw [Val.str.inj he] at hr
    exact absurd hr (newItem_parts h).1

end Append

/-! ## Memory and file -/

section Full

variable [Cbor F] [Sha256] [PyFloat F] [PyText F]

/-- Every run in the table has an event. -/
def Full (events : Table Str (List (JournalEvent F))) : Prop :=
  ∀ r es, events.get r = some es → es ≠ []

omit [Cbor F] [Sha256] [PyFloat F] [PyText F] in
theorem Full.insert {events : Table Str (List (JournalEvent F))} {r : Str}
    {es : List (JournalEvent F)} (h : Full events) (hes : es ≠ []) :
    Full (events.insert r es) := by
  intro r' es' hget
  rw [Table.get_insert] at hget
  split_ifs at hget with hr
  · rw [← Option.some.inj hget]
    exact hes
  · exact h r' es' hget

omit [Cbor F] [Sha256] [PyFloat F] [PyText F] in
theorem Full.mem_keys_iff {events : Table Str (List (JournalEvent F))} (h : Full events) {r : Str} :
    r ∈ events.keys ↔ (events.get r).getD [] ≠ [] := by
  rw [Table.mem_keys_iff]
  constructor
  · rintro ⟨es, hes⟩
    rw [hes]
    exact h r es hes
  · intro hne
    cases hes : events.get r with
    | none =>
      rw [hes] at hne
      exact absurd rfl hne
    | some es => exact ⟨es, rfl⟩

theorem loadFrames_full {n index : ℕ} {file : Bytes} {expected : Table Str ℕ}
    {events disk : Table Str (List (JournalEvent F))}
    (h : loadFrames n index file expected events = .ok disk) (hfull : Full events) : Full disk := by
  induction n generalizing index file expected events with
  | zero => cases h
  | succ n ih =>
    obtain ⟨-, rfl⟩ | ⟨record, rest, item, -, -, h⟩ := loadFrames_eq_ok h
    · exact hfull
    · exact ih h (hfull.insert (List.append_ne_nil_of_right_ne_nil _ (List.cons_ne_nil _ _)))

theorem load_full {file : Bytes} {disk : Table Str (List (JournalEvent F))}
    (h : load file = .ok disk) : Full disk := by
  unfold load at h
  split_ifs at h
  · cases h
  obtain ⟨_ | ⟨value, rest⟩, -, h⟩ := bind_eq_ok.1 h
  · cases h
  · simp only at h
    split_ifs at h
    · refine loadFrames_full h fun r es hget => ?_
      rw [Table.get_empty] at hget
      cases hget
    · cases h

end Full

/-- The events of a journal, those its file loads as and the calls that returned belong together;
`base` are the events it was first opened with. -/
structure HistoryInv [Cbor F] [Sha256] [PyFloat F] [PyText F] (base : Str → List (JournalEvent F))
    (s : History F) (disk : Table Str (List (JournalEvent F))) : Prop where
  loads : load s.journal.store.file = .ok disk
  written : ∀ r, ∃ new, (disk.get r).getD [] = base r ++ new ∧
    List.Forall₂ (Holds true) (s.appendedTo r) new
  events : ∀ r, ∃ new, s.journal.eventsOf r = base r ++ new ∧
    List.Forall₂ (Holds (decide (r ∈ s.opened))) (s.appendedTo r) new
  kept : ∀ r, List.Forall₂ ReadsBack (s.journal.eventsOf r) ((disk.get r).getD [])
  full : Full s.journal.eventsByRun
  opened : ∀ r, r ∈ s.opened ↔ r ∈ s.journal.recoveredRunIds

theorem forall₂_readsBack_refl (es : List (JournalEvent F)) : List.Forall₂ ReadsBack es es :=
  List.forall₂_same.2 fun _ _ => .inl rfl

section Steps

variable [Cbor F] [Sha256] [PyFloat F] [PyText F] {base : Str → List (JournalEvent F)}
  {s s' : History F} {disk : Table Str (List (JournalEvent F))} {j : FileRunJournal F}

/-- Opening reads the events of the file. -/
theorem HistoryInv.of_load {appended : List (Appended F)} {fsync : Bool} {file : Bytes}
    (hload : load file = .ok disk) (hj : openJournal (some file) fsync = .ok j)
    (hdisk : ∀ r, ∃ new, (disk.get r).getD [] = base r ++ new ∧
      List.Forall₂ (Holds true) (appended.filter fun c => c.runId = r) new) :
    HistoryInv base ⟨j, j.runIds, appended⟩ disk := by
  obtain ⟨disk', hload', rfl⟩ := map_eq_ok.1 hj
  obtain rfl := Except.ok.inj (hload.symm.trans hload')
  have hfull := load_full hload
  have hopened : ∀ r, r ∈ sortedSet disk.keys ↔ r ∈ disk.keys := fun r => mem_sortedSet
  refine ⟨hload, hdisk, fun r => ?_, fun r => forall₂_readsBack_refl _, hfull, hopened⟩
  obtain ⟨new, hnew, hall⟩ := hdisk r
  by_cases hr : r ∈ disk.keys
  · refine ⟨new, hnew, ?_⟩
    show List.Forall₂ (Holds (decide (r ∈ sortedSet disk.keys))) _ new
    rw [decide_eq_true ((hopened r).2 hr)]
    exact hall
  · -- a run that is not in the file has no events and no calls
    rw [hfull.mem_keys_iff, not_not] at hr
    rw [hr] at hnew
    obtain ⟨hb, hn⟩ := List.append_eq_nil_iff.1 hnew.symm
    rw [hn, List.forall₂_nil_right_iff] at hall
    refine ⟨[], ?_, ?_⟩
    · rw [hb]
      exact hr
    · show List.Forall₂ _ (appended.filter fun c => c.runId = r) []
      rw [hall]
      exact .nil

theorem HistoryInv.reopen (h : HistoryInv base s disk) (fsync : Bool) :
    ∃ j : FileRunJournal F, openJournal (some s.journal.close.store.file) fsync = .ok j ∧
      HistoryInv base { s with journal := j, opened := j.runIds } disk := by
  refine ⟨_, map_eq_ok.2 ⟨disk, h.loads, rfl⟩, ?_⟩
  exact .of_load h.loads (map_eq_ok.2 ⟨disk, h.loads, rfl⟩) h.written

theorem HistoryInv.runIds (h : HistoryInv base s disk) : sortedSet disk.keys = s.journal.runIds := by
  refine sortedSet_congr fun r => ?_
  rw [(load_full h.loads).mem_keys_iff, h.full.mem_keys_iff]
  have hlen := (h.kept r).length_eq
  rw [← List.length_pos_iff, ← List.length_pos_iff, ← hlen]
  rfl

theorem HistoryInv.numbered (h : HistoryInv base s disk) {r : Str} {i : ℕ} {e : JournalEvent F}
    (he : (s.journal.eventsOf r)[i]? = some e) : e.eventSeq = i + 1 := by
  obtain ⟨e', he', hr⟩ := (h.kept r).exists_of_getElem? he
  rw [← hr.eventSeq]
  exact load_numbered h.loads r i e' he'

omit [Cbor F] [Sha256] [PyFloat F] [PyText F] in
/-- Filtering by the number is dropping. -/
theorem filter_eventSeq {events : List (JournalEvent F)}
    (hnum : ∀ i e, events[i]? = some e → e.eventSeq = i + 1) (k : ℕ) :
    (events.filter fun e => k < e.eventSeq) = events.drop k := by
  have hsplit : ∀ (es : List (JournalEvent F)) (n : ℕ),
      (∀ i e, es[i]? = some e → e.eventSeq = n + i + 1) →
      (es.filter fun e => k < e.eventSeq) = es.drop (k - n) := by
    intro es
    induction es with
    | nil => intro n _; simp
    | cons e es ih =>
      intro n hn
      have hhead : e.eventSeq = n + 1 := hn 0 e rfl
      have htail := ih (n + 1) fun i e' he' => by
        rw [hn (i + 1) e' he']
        omega
      rw [List.filter_cons, htail, hhead]
      by_cases hk : k < n + 1
      · rw [if_pos (decide_eq_true hk), show k - n = 0 by omega, show k - (n + 1) = 0 by omega]
        rfl
      · rw [if_neg (by rw [decide_eq_true_iff]; exact hk),
          show k - n = k - (n + 1) + 1 by omega, List.drop_succ_cons]
  rw [hsplit events 0 fun i e he => by rw [hnum i e he, Nat.zero_add], Nat.sub_zero]

theorem HistoryInv.historyOk (h : HistoryInv j.eventsOf s disk) : HistoryOk j s := by
  refine ⟨fun r hr => ?_, fun fsync => ?_, fun r hr event timeNs => ?_⟩
  · obtain ⟨new, hnew, hall⟩ := h.events r
    have hnum : ∀ i e, (j.eventsOf r ++ new)[i]? = some e → e.eventSeq = i + 1 := by
      rw [← hnew]
      exact fun i e he => h.numbered he
    refine ⟨new, hall, hnum, fun k => ?_⟩
    have hseq : RunJournal.afterSeq (.int (k : ℤ) : Val F) = .ok k := by
      have hk : ¬(k : ℤ) < 0 := by omega
      simp only [RunJournal.afterSeq, hk, if_false, Int.toNat_natCast]
    unfold RunJournal.replay
    rw [hr, hseq]
    simp only [bind, Except.bind]
    rw [hnew, filter_eventSeq hnum]
  · obtain ⟨j', hj', h'⟩ := h.reopen fsync
    obtain ⟨disk', hload, rfl⟩ := map_eq_ok.1 hj'
    obtain rfl := Except.ok.inj (h.loads.symm.trans hload)
    exact ⟨_, hj', h.runIds, h.kept⟩
  · obtain ⟨e, he⟩ : ∃ e, s.journal.newItem (.str r) event timeNs = .error e :=
      newItem_eq_error ((h.opened r).1 hr)
    refine ⟨e, ?_⟩
    unfold RunJournal.append
    rw [he]

/-! ## Steps -/

omit [Cbor F] [Sha256] [PyFloat F] [PyText F] in
theorem appendedTo_concat (s : History F) (journal : FileRunJournal F) (c : Appended F) (r : Str) :
    History.appendedTo { s with journal, appended := s.appended ++ [c] } r =
      s.appendedTo r ++ if r = c.runId then [c] else [] := by
  unfold History.appendedTo
  rw [List.filter_append, List.filter_singleton]
  by_cases hr : r = c.runId
  · rw [if_pos hr, decide_eq_true hr.symm]
    rfl
  · rw [if_neg hr, decide_eq_false (Ne.symm hr)]
    rfl

omit [Cbor F] [Sha256] [PyFloat F] [PyText F] in
/-- Both accounts of a run grow by its event. -/
theorem forall₂_concat {α : Type}
    {P : α → JournalEvent F → Prop} {as : List α} {es : List (JournalEvent F)}
    (h : List.Forall₂ P as es) {c : Prop} [Decidable c] {a : α} {e : JournalEvent F}
    (hae : c → P a e) :
    List.Forall₂ P (as ++ if c then [a] else []) (es ++ if c then [e] else []) := by
  split_ifs with hc
  · exact List.rel_append h (.cons (hae hc) .nil)
  · rw [List.append_nil, List.append_nil]
    exact h

/-- A frame is written and the event is known in memory. -/
theorem HistoryInv.append [LawfulCbor F] (hlen : ∀ b, (Sha256.digest b).length = 32)
    (h : HistoryInv base s disk) {runId event : Val F} {timeNs : ℕ} {item : JournalEvent F}
    {bytes : Bytes} (hi : s.journal.newItem runId event timeNs = .ok item)
    (hb : frame (dictOf item.record) = .ok bytes) :
    ∃ disk', HistoryInv base { s with
      journal := { s.journal with
        store := { s.journal.store with file := s.journal.store.file ++ bytes }
        eventsByRun := s.journal.eventsByRun.insert item.runId
          (s.journal.eventsOf item.runId ++ [item]) }
      appended := s.appended ++ [⟨item.runId, event, timeNs⟩] } disk' := by
  obtain ⟨-, hacc, hseq⟩ := newItem_eq_ok hi
  obtain ⟨hnew, hevent, htime⟩ := newItem_parts hi
  have hnot : item.runId ∉ s.opened := fun hin => hnew ((h.opened _).1 hin)
  rw [(h.kept item.runId).length_eq] at hseq
  obtain ⟨item', hreads, hload⟩ := (load_frame hlen h.loads hacc hb).1 hseq
  have hinsert : ∀ r, RunJournal.eventsOf { s.journal with
      store := { s.journal.store with file := s.journal.store.file ++ bytes }
      eventsByRun := s.journal.eventsByRun.insert item.runId
        (s.journal.eventsOf item.runId ++ [item]) } r =
      s.journal.eventsOf r ++ if r = item.runId then [item] else [] := by
    intro r
    rw [eventsOf_insert]
    split_ifs with hr
    · rw [hr]
    · rw [List.append_nil]
  refine ⟨push disk item', hload, fun r => ?_, fun r => ?_, fun r => ?_, ?_, h.opened⟩
  · obtain ⟨new, he, hall⟩ := h.written r
    rw [get_push, he, hreads.runId, appendedTo_concat, List.append_assoc]
    refine ⟨_, rfl, forall₂_concat hall fun hr => ⟨hreads.runId, ?_, ?_⟩⟩
    · rw [hreads.recordedAtNs, htime]
    · rw [if_pos rfl, hevent]
      exact hreads.event
  · obtain ⟨new, he, hall⟩ := h.events r
    rw [hinsert, he, appendedTo_concat, List.append_assoc]
    refine ⟨_, rfl, forall₂_concat hall fun hr => ⟨rfl, htime, ?_⟩⟩
    rw [decide_eq_false (hr ▸ hnot), if_neg Bool.false_ne_true]
    exact hevent
  · rw [hinsert, get_push, hreads.runId]
    exact forall₂_concat (h.kept r) fun _ => .inr hreads
  · exact h.full.insert (List.append_ne_nil_of_right_ne_nil _ (List.cons_ne_nil _ _))

/-- An `append` that fails in `_frame`, to a run that has events. -/
theorem HistoryInv.unframed (h : HistoryInv base s disk) {item : JournalEvent F}
    (hne : s.journal.eventsOf item.runId ≠ []) :
    HistoryInv base { s with journal := { s.journal with
      eventsByRun := s.journal.eventsByRun.insert item.runId
        (s.journal.eventsOf item.runId) } } disk := by
  have hsame : ∀ r, RunJournal.eventsOf { s.journal with
      eventsByRun := s.journal.eventsByRun.insert item.runId
        (s.journal.eventsOf item.runId) } r = s.journal.eventsOf r := by
    intro r
    rw [eventsOf_insert]
    split_ifs with hr
    · rw [hr]
    · rfl
  refine ⟨h.loads, h.written, fun r => ?_, fun r => ?_, h.full.insert hne, h.opened⟩
  · rw [hsame]
    exact h.events r
  · rw [hsame]
    exact h.kept r

theorem HistoryInv.step [LawfulCbor F] (hlen : ∀ b, (Sha256.digest b).length = 32)
    {l : HistoryStep F} (h : HistoryInv base s disk) (hok : s.Framed l)
    (hs : s.step l = some s') : ∃ disk', HistoryInv base s' disk' := by
  cases l with
  | append runId event timeNs =>
    unfold History.step at hs
    simp only [History.Framed] at hok
    obtain ⟨e, ha⟩ | ⟨item, e, hi, hf, ha⟩ | ⟨item, bytes, hi, hb, ha⟩ :=
      append_cases s.journal runId event timeNs
    · simp only [ha] at hs
      rw [← Option.some.inj hs]
      exact ⟨disk, h⟩
    · simp only [ha] at hs
      rw [← Option.some.inj hs]
      refine ⟨disk, h.unframed fun hnil => ?_⟩
      simp only [hi] at hok
      have hseq := (newItem_eq_ok hi).2.2
      rw [hnil] at hseq
      rw [hok hseq] at hf
      cases hf
    · simp only [ha] at hs
      rw [← Option.some.inj hs]
      exact h.append hlen hi hb
  | close =>
    rw [← Option.some.inj hs]
    exact ⟨disk, h.loads, h.written, h.events, h.kept, h.full, h.opened⟩
  | reopen fsync =>
    obtain ⟨j, hj, h'⟩ := h.reopen fsync
    unfold History.step at hs
    simp only [hj] at hs
    rw [← Option.some.inj hs]
    exact ⟨disk, h'⟩

theorem historyInv_of_openJournal [LawfulCbor F] (hlen : ∀ b, (Sha256.digest b).length = 32)
    {path : Option Bytes} {fsync : Bool} (h : openJournal path fsync = .ok j) :
    ∃ disk, HistoryInv j.eventsOf ⟨j, j.runIds, []⟩ disk := by
  cases path with
  | some file =>
    obtain ⟨disk, hload, rfl⟩ := map_eq_ok.1 h
    exact ⟨disk, .of_load hload h fun r => ⟨[], (List.append_nil _).symm, .nil⟩⟩
  | none =>
    obtain ⟨bytes, hf, rfl⟩ := map_eq_ok.1 h
    refine ⟨∅, load_magic hlen hf, fun r => ⟨[], ?_, .nil⟩, fun r => ⟨[], ?_, .nil⟩, fun r => ?_,
      fun r es hget => ?_, fun r => mem_sortedSet⟩
    · rfl
    · exact (List.append_nil _).symm
    · exact .nil
    · rw [Table.get_empty] at hget
      cases hget

/-- Every history of a file journal in which the first event of each run can be framed. -/
theorem FileRunJournal.history_along [LawfulCbor F] (hlen : ∀ b, (Sha256.digest b).length = 32)
    {path : Option Bytes} {fsync : Bool} {ls : List (HistoryStep F)}
    (hopen : openJournal path fsync = .ok j)
    (hrun : run History.step ⟨j, j.runIds, []⟩ ls = some s)
    (hok : Along History.step History.Framed ⟨j, j.runIds, []⟩ ls) : HistoryOk j s := by
  have hinv : ∃ disk, HistoryInv j.eventsOf s disk := by
    refine run_invariant_along (I := fun s => ∃ disk, HistoryInv j.eventsOf s disk) ?_ hrun hok
      (historyInv_of_openJournal hlen hopen)
    rintro s l s' ⟨disk, h⟩ hl hs
    exact h.step hlen hl hs
  obtain ⟨disk, h⟩ := hinv
  exact h.historyOk

end Steps

section Demo

local instance historyHash : Sha256 := lengthHash

/-- Two runs, one of them with a tuple, opened again between the events. -/
def demoHistory : List (HistoryStep ℚ) :=
  [.append (.str (py "run-1")) (dictOf [("type", .str (py "run.queued"))]) 7,
    .append (.str (py "run-2")) (dictOf [("size", .tuple [.int 1, .int 2])]) 8,
    .append (.str (py "run-1")) (dictOf [("type", .str (py "run.opened"))]) 9, .reopen true,
    .append (.str (py "run-1")) (dictOf [("type", .str (py "run.failed"))]) 10,
    .append (.str (py "run-3")) (dictOf [("type", .str (py "run.queued"))]) 11, .close]

/-- The events of each run, by number and time. -/
def History.brief (s : History ℚ) : List (List (ℕ × ℕ)) :=
  s.journal.runIds.map fun r => (s.journal.eventsOf r).map fun e => (e.eventSeq, e.recordedAtNs)

theorem FileRunJournal.history_along_demo : ∃ (j : FileRunJournal ℚ) (s : History ℚ),
    openJournal none false = .ok j ∧
    run History.step ⟨j, j.runIds, []⟩ demoHistory = some s ∧ HistoryOk j s ∧
    s.brief = [[(1, 7), (2, 9)], [(1, 8)], [(1, 11)]] := by
  have hsome : (openJournal none false : Except (JournalError ℚ) _).toOption.any (fun j =>
      decide (Along History.step History.Framed ⟨j, j.runIds, []⟩ demoHistory) &&
        (run History.step ⟨j, j.runIds, []⟩ demoHistory).any fun s =>
          decide (s.brief = [[(1, 7), (2, 9)], [(1, 8)], [(1, 11)]])) = true := by
    decide +kernel
  obtain ⟨j, hj, h⟩ := (Option.any_eq_true _ _).1 hsome
  obtain ⟨hok, h⟩ := Bool.and_eq_true_iff.1 h
  obtain ⟨s, hs, hbrief⟩ := (Option.any_eq_true _ _).1 h
  have hopen : openJournal none false = .ok j := toOption_eq_some.1 hj
  exact ⟨j, s, hopen, hs, FileRunJournal.history_along length_lengthHash hopen hs
    (of_decide_eq_true hok), of_decide_eq_true hbrief⟩

/-- An event with a lone surrogate, of a new run: `append` raises, `run_ids` has the run, and the
file does not. -/
theorem FileRunJournal.history_counterexample : ∃ (j j' : FileRunJournal ℚ) (s : History ℚ),
    openJournal none false = .ok j ∧
    run History.step ⟨j, j.runIds, []⟩
      [.append (.str (py "run-1")) (dictOf [("text", .str [0xD800])]) 7] = some s ∧
    openJournal (some s.journal.close.store.file) false = .ok j' ∧
    s.journal.runIds = [py "run-1"] ∧ j'.runIds = [] := by
  have hsome : (openJournal none false : Except (JournalError ℚ) _).toOption.any (fun j =>
      (run History.step ⟨j, j.runIds, []⟩
        [.append (.str (py "run-1")) (dictOf [("text", .str [0xD800])]) 7]).any fun s =>
          (openJournal (some s.journal.close.store.file) false :
            Except (JournalError ℚ) _).toOption.any fun j' =>
              decide (s.journal.runIds = [py "run-1"] ∧ j'.runIds = [])) = true := by
    decide +kernel
  obtain ⟨j, hj, h⟩ := (Option.any_eq_true _ _).1 hsome
  obtain ⟨s, hs, h⟩ := (Option.any_eq_true _ _).1 h
  obtain ⟨j', hj', h⟩ := (Option.any_eq_true _ _).1 h
  exact ⟨j, j', s, toOption_eq_some.1 hj, hs, toOption_eq_some.1 hj', of_decide_eq_true h⟩

end Demo

end RemoteRobot
