import RemoteRobot.Journal.History

/-!
# A file cut short

A crash leaves a prefix of the file behind.  `_load` takes it when it ends behind a frame, and shows
the events up to there; everywhere else the cut falls into the magic or into a frame, and is seen as
corruption (`FileRunJournal.load_cut`).
-/

namespace RemoteRobot

open Py Except Transition

variable {F : Type}

/-! ## The frames of a file -/

section Written

variable [Cbor F] [Sha256] [PyFloat F] [PyText F]

/-- The file has the frames of these events, which were accepted one after another. -/
structure Written (file headerFrame : Bytes) (items : List (JournalEvent F)) (frames : List Bytes) :
    Prop where
  header : frame (header : Val F) = .ok headerFrame
  file : file = magic ++ headerFrame ++ frames.flatten
  frames : List.Forall₂ (fun item bytes =>
    JournalEvent.Accepted item ∧ frame (dictOf item.record) = .ok bytes) items frames
  numbered : ∀ init item tail, items = init ++ item :: tail →
    item.eventSeq = (init.filter fun e => e.runId = item.runId).length + 1

omit [Cbor F] [Sha256] [PyFloat F] [PyText F] in
/-- The events of each run, as they read back, and no other runs. -/
def Shows (items : List (JournalEvent F)) (disk : Table Str (List (JournalEvent F))) : Prop :=
  (∀ r, List.Forall₂ ReadsAs (items.filter fun e => e.runId = r) ((disk.get r).getD [])) ∧
    ∀ r, r ∈ disk.keys ↔ ∃ e ∈ items, e.runId = r

variable {file headerFrame : Bytes} {items : List (JournalEvent F)} {frames : List Bytes}

omit [Cbor F] [Sha256] [PyFloat F] [PyText F] in
theorem Shows.push {disk : Table Str (List (JournalEvent F))} {item item' : JournalEvent F}
    (h : Shows items disk) (hreads : ReadsAs item item') : Shows (items ++ [item]) (push disk item') := by
  refine ⟨fun r => ?_, fun r => ?_⟩
  · rw [get_push, List.filter_append, List.filter_singleton, hreads.runId]
    by_cases hr : r = item.runId
    · rw [if_pos hr, decide_eq_true hr.symm]
      exact List.rel_append (h.1 r) (.cons hreads .nil)
    · rw [if_neg hr, decide_eq_false (Ne.symm hr), List.append_nil]
      simpa using h.1 r
  · rw [Table.mem_keys_iff]
    unfold RemoteRobot.push
    rw [Table.get_insert, hreads.runId]
    by_cases hr : r = item.runId
    · rw [if_pos hr]
      exact ⟨fun _ => ⟨item, by simp, hr.symm⟩, fun _ => ⟨_, rfl⟩⟩
    · rw [if_neg hr, ← Table.mem_keys_iff, h.2 r]
      simp [Ne.symm hr]

/-- The file up to the end of a frame loads. -/
theorem Written.load_take [LawfulCbor F] (hlen : ∀ b, (Sha256.digest b).length = 32)
    (h : Written file headerFrame items frames) {k : ℕ} (hk : k ≤ frames.length) :
    ∃ disk, load (magic ++ headerFrame ++ (frames.take k).flatten) = .ok disk ∧
      Shows (items.take k) disk := by
  induction k with
  | zero =>
    refine ⟨∅, ?_, fun r => ?_, fun r => ?_⟩
    · rw [List.take_zero, List.flatten_nil, List.append_nil]
      exact load_magic hlen h.header
    · rw [Table.get_empty]
      exact .nil
    · rw [Table.mem_keys_iff, Table.get_empty]
      simp
  | succ k ih =>
    obtain ⟨disk, hload, hshows⟩ := ih (by omega)
    have hframe : frames[k]? = some frames[k] := List.getElem?_eq_getElem hk
    have hk' : k < items.length := h.frames.length_eq ▸ hk
    have hitem : items[k]? = some items[k] := List.getElem?_eq_getElem hk'
    obtain ⟨hacc, hb⟩ := List.Forall₂.get h.frames hk' hk
    have hseq : items[k].eventSeq = ((disk.get items[k].runId).getD []).length + 1 := by
      rw [h.numbered (items.take k) items[k] (items.drop (k + 1)) ?_, (hshows.1 _).length_eq]
      rw [← List.drop_eq_getElem_cons, List.take_append_drop]
    obtain ⟨item', hreads, hload'⟩ := (load_frame hlen hload hacc hb).1 hseq
    refine ⟨push disk item', ?_, ?_⟩
    · rw [List.take_add_one, hframe, Option.toList_some, List.flatten_append, List.flatten_singleton,
        ← List.append_assoc]
      exact hload'
    · rw [List.take_add_one, hitem, Option.toList_some]
      exact hshows.push hreads

end Written

/-! ## Cuts -/

theorem readBe_eq_none {k acc : ℕ} {bs : Bytes} (h : bs.length < k) : Codec.readBe k acc bs = none := by
  induction k generalizing acc bs with
  | zero => omega
  | succ k ih =>
    cases bs with
    | nil => rfl
    | cons b bs =>
      rw [List.length_cons] at h
      exact ih (by omega)

/-- A prefix of joined pieces ends behind a piece or inside one. -/
theorem take_flatten_cases {α : Type} (pieces : List (List α)) (n : ℕ) :
    (∃ k ≤ pieces.length, pieces.flatten.take n = (pieces.take k).flatten) ∨
    ∃ k piece i, pieces[k]? = some piece ∧ 0 < i ∧ i < piece.length ∧
      pieces.flatten.take n = (pieces.take k).flatten ++ piece.take i := by
  induction pieces generalizing n with
  | nil => exact .inl ⟨0, le_rfl, by simp⟩
  | cons piece pieces ih =>
    rw [List.flatten_cons, List.take_append]
    by_cases hn : n < piece.length
    · rw [show n - piece.length = 0 by omega, List.take_zero, List.append_nil]
      rcases Nat.eq_zero_or_pos n with rfl | hpos
      · exact .inl ⟨0, Nat.zero_le _, rfl⟩
      · exact .inr ⟨0, piece, n, rfl, hpos, hn, rfl⟩
    · rw [List.take_of_length_le (Nat.not_lt.1 hn)]
      obtain ⟨k, hk, he⟩ | ⟨k, piece', i, hk, h0, hi, he⟩ := ih (n - piece.length)
      · refine .inl ⟨k + 1, ?_, ?_⟩
        · rw [List.length_cons]
          omega
        · rw [he]
          rfl
      · refine .inr ⟨k + 1, piece', i, hk, h0, hi, ?_⟩
        rw [he, ← List.append_assoc]
        rfl

section Cuts

variable [Cbor F] [Sha256] [PyFloat F] [PyText F]

omit [PyFloat F] [PyText F] in
/-- A frame that is cut short: its length, its checksum or its payload is incomplete. -/
theorem decodeFrame_cut (hlen : ∀ b, (Sha256.digest b).length = 32) {value : Val F} {bytes : Bytes}
    (h : frame value = .ok bytes) {i : ℕ} (h0 : 0 < i) (hi : i < bytes.length) (location : Str) :
    ∃ m, (decodeFrame location (bytes.take i) : Except (JournalError F) _) =
      .error (.corruption m) := by
  obtain ⟨payload, -, hpos, hmax, rfl⟩ := frame_eq_ok h
  have hsize := hlen payload
  have h4 : (Codec.beBytes 4 payload.length).length = 4 := rfl
  rw [List.length_append, List.length_append, h4, hsize] at hi
  have hne : ((Codec.beBytes 4 payload.length ++ Sha256.digest payload ++ payload).take i).isEmpty =
      false := by
    rw [List.isEmpty_eq_false_iff, ← List.length_pos_iff, List.length_take, List.length_append,
      List.length_append]
    omega
  unfold decodeFrame
  rw [hne, if_neg Bool.false_ne_true]
  by_cases hshort : i < 4
  · rw [readBe_eq_none (by rw [List.length_take]; omega)]
    exact ⟨_, rfl⟩
  · rw [List.append_assoc, List.take_append, h4, List.take_of_length_le (by omega),
      Codec.readBe_beBytes_lt (by unfold maxFrameBytes at hmax; omega)]
    simp only
    rw [if_neg (by omega)]
    split_ifs with hsum hpay
    · exact ⟨_, rfl⟩
    · exact ⟨_, rfl⟩
    · rw [List.length_take, List.length_append] at hsum
      rw [List.length_drop, List.length_take, List.length_append] at hpay
      omega

variable {file headerFrame : Bytes} {items : List (JournalEvent F)} {frames : List Bytes}

/-- A prefix that does not end behind a frame is corrupt. -/
theorem Written.load_inside [LawfulCbor F] (hlen : ∀ b, (Sha256.digest b).length = 32)
    (h : Written file headerFrame items frames) {n : ℕ}
    (hn : ∀ k ≤ frames.length, file.take n ≠ magic ++ headerFrame ++ (frames.take k).flatten) :
    ∃ m, (load (file.take n) : Except (JournalError F) _) = .error (.corruption m) := by
  have hm : magic.length = 4 := rfl
  rw [h.file, List.append_assoc, List.take_append, hm] at hn ⊢
  by_cases hshort : n < 4
  · have htake : ¬((magic.take n ++ (headerFrame ++ frames.flatten).take (n - 4)).take 4 = magic) := by
      intro he
      have := congrArg List.length he
      rw [show n - 4 = 0 by omega, List.take_zero, List.append_nil, List.length_take,
        List.length_take, hm] at this
      omega
    unfold load
    rw [if_pos htake]
    exact ⟨_, rfl⟩
  rw [List.take_of_length_le (show magic.length ≤ n by rw [hm]; omega)] at hn ⊢
  have hflat : headerFrame ++ frames.flatten = (headerFrame :: frames).flatten := rfl
  rw [hflat] at hn ⊢
  have hmagic : ∀ rest : Bytes, (magic ++ rest).take 4 = magic ∧ (magic ++ rest).drop 4 = rest :=
    fun rest => ⟨rfl, rfl⟩
  obtain ⟨k, hk, he⟩ | ⟨k, piece, i, hk, h0, hi, he⟩ :=
    take_flatten_cases (headerFrame :: frames) (n - 4)
  · cases k with
    | zero =>
      rw [he]
      exact ⟨_, rfl⟩
    | succ k =>
      refine absurd ?_ (hn k (by simpa using hk))
      rw [he, List.take_succ_cons, List.flatten_cons, List.append_assoc]
  · rw [he]
    cases k with
    | zero =>
      obtain rfl := Option.some.inj hk
      obtain ⟨m, hcut⟩ := decodeFrame_cut hlen h.header h0 hi (py "header")
      refine ⟨m, ?_⟩
      unfold load
      rw [if_neg (not_not.2 (hmagic _).1), (hmagic _).2]
      rw [List.take_zero, List.flatten_nil, List.nil_append, hcut]
      rfl
    | succ k =>
      have hk : frames[k]? = some piece := hk
      obtain ⟨hlt, rfl⟩ := List.getElem?_eq_some_iff.1 hk
      obtain ⟨-, hb⟩ := List.Forall₂.get h.frames (h.frames.length_eq ▸ hlt) hlt
      obtain ⟨disk, hload, -⟩ := h.load_take hlen hlt.le
      obtain ⟨index, expected, -, hgoes⟩ := load_append hload
      obtain ⟨m, hcut⟩ := decodeFrame_cut hlen hb h0 hi (py "event frame " ++ natStr index)
      refine ⟨m, ?_⟩
      rw [List.take_succ_cons, List.flatten_cons, ← List.append_assoc, ← List.append_assoc, hgoes]
      simp only [loadFrames]
      have hpiece : frames.get ⟨k, hlt⟩ = frames[k] := rfl
      rw [hpiece] at hcut
      rw [hcut]
      rfl

/-! ## Files of a journal -/

/-- The file has the calls of `append` that returned, and memory counts the same events. -/
structure FileInv (s : History F) (headerFrame : Bytes) (items : List (JournalEvent F))
    (frames : List Bytes) : Prop where
  written : Written s.journal.store.file headerFrame items frames
  appended : List.Forall₂ (Holds false) s.appended items
  counts : ∀ r, (s.journal.eventsOf r).length = (items.filter fun e => e.runId = r).length

variable {s s' : History F}

omit [Cbor F] [Sha256] [PyFloat F] [PyText F] in
/-- The new item has the next number of its run. -/
theorem numbered_concat {item : JournalEvent F} (h : ∀ init e tail, items = init ++ e :: tail →
      e.eventSeq = (init.filter fun e' => e'.runId = e.runId).length + 1)
    (hseq : item.eventSeq = (items.filter fun e => e.runId = item.runId).length + 1) :
    ∀ init e tail, items ++ [item] = init ++ e :: tail →
      e.eventSeq = (init.filter fun e' => e'.runId = e.runId).length + 1 := by
  intro init e tail he
  rcases List.eq_nil_or_concat tail with rfl | ⟨tail, last, rfl⟩
  · obtain ⟨rfl, hlast⟩ := List.append_inj' he rfl
    obtain rfl := List.cons.inj hlast |>.1
    exact hseq
  · rw [List.concat_eq_append, ← List.cons_append, ← List.append_assoc] at he
    exact h init e tail (List.append_inj' he rfl).1

theorem FileInv.append (h : FileInv s headerFrame items frames) {runId event : Val F} {timeNs : ℕ}
    {item : JournalEvent F} {bytes : Bytes} (hi : s.journal.newItem runId event timeNs = .ok item)
    (hb : frame (dictOf item.record) = .ok bytes) :
    FileInv { s with
      journal := { s.journal with
        store := { s.journal.store with file := s.journal.store.file ++ bytes }
        eventsByRun := s.journal.eventsByRun.insert item.runId
          (s.journal.eventsOf item.runId ++ [item]) }
      appended := s.appended ++ [⟨item.runId, event, timeNs⟩] }
      headerFrame (items ++ [item]) (frames ++ [bytes]) := by
  obtain ⟨-, hacc, hseq⟩ := newItem_eq_ok hi
  obtain ⟨-, hevent, htime⟩ := newItem_parts hi
  rw [h.counts] at hseq
  refine ⟨⟨h.written.header, ?_, List.rel_append h.written.frames (.cons ⟨hacc, hb⟩ .nil),
    numbered_concat h.written.numbered hseq⟩, List.rel_append h.appended (.cons ⟨rfl, htime, ?_⟩ .nil),
    fun r => ?_⟩
  · show s.journal.store.file ++ bytes = _
    rw [h.written.file, List.flatten_append, List.flatten_singleton, List.append_assoc]
  · rw [if_neg Bool.false_ne_true]
    exact hevent
  · rw [eventsOf_insert, List.filter_append, List.filter_singleton]
    by_cases hr : r = item.runId
    · rw [if_pos hr, decide_eq_true hr.symm, List.length_append, List.length_append, ← hr, h.counts]
      rfl
    · rw [if_neg hr, decide_eq_false (Ne.symm hr), h.counts]
      simp

theorem FileInv.step [LawfulCbor F] (hlen : ∀ b, (Sha256.digest b).length = 32) {l : HistoryStep F}
    (h : FileInv s headerFrame items frames) (hs : s.step l = some s') :
    ∃ items frames, FileInv s' headerFrame items frames := by
  cases l with
  | append runId event timeNs =>
    unfold History.step at hs
    obtain ⟨e, ha⟩ | ⟨item, e, hi, hf, ha⟩ | ⟨item, bytes, hi, hb, ha⟩ :=
      append_cases s.journal runId event timeNs
    · simp only [ha] at hs
      exact ⟨items, frames, Option.some.inj hs ▸ h⟩
    · simp only [ha] at hs
      refine ⟨items, frames, Option.some.inj hs ▸ ⟨h.written, h.appended, fun r => ?_⟩⟩
      rw [eventsOf_insert]
      split_ifs with hr
      · rw [← hr]
        exact h.counts r
      · exact h.counts r
    · simp only [ha] at hs
      exact ⟨_, _, Option.some.inj hs ▸ h.append hi hb⟩
  | close => exact ⟨items, frames, Option.some.inj hs ▸ ⟨h.written, h.appended, h.counts⟩⟩
  | reopen fsync =>
    unfold History.step at hs
    cases hj : (openJournal (some s.journal.close.store.file) fsync :
        Except (JournalError F) (FileRunJournal F)) with
    | error e =>
      simp only [hj] at hs
      cases hs
    | ok j =>
      simp only [hj] at hs
      obtain ⟨disk, hload, rfl⟩ := map_eq_ok.1 hj
      obtain ⟨disk', hload', hshows⟩ := h.written.load_take hlen le_rfl
      rw [List.take_length, ← h.written.file] at hload'
      obtain rfl := Except.ok.inj (hload.symm.trans hload')
      rw [← h.written.frames.length_eq, List.take_length] at hshows
      exact ⟨items, frames, Option.some.inj hs ▸
        ⟨h.written, h.appended, fun r => ((hshows.1 r).length_eq).symm⟩⟩

theorem fileInv_of_openJournal {fsync : Bool} {j : FileRunJournal F}
    (h : openJournal none fsync = .ok j) :
    ∃ headerFrame items frames, FileInv ⟨j, j.runIds, []⟩ headerFrame items frames := by
  obtain ⟨bytes, hf, rfl⟩ := map_eq_ok.1 h
  refine ⟨bytes, [], [], ⟨hf, (List.append_nil _).symm, .nil, fun init e tail he => ?_⟩, .nil,
    fun r => rfl⟩
  exact absurd he.symm (List.append_ne_nil_of_right_ne_nil _ (List.cons_ne_nil _ _))

/-- The file of a journal that was made, appended to and opened again, without I/O failure, is the
frames of the calls that returned.  `_load` takes a prefix of it just when the prefix ends behind the
header or behind one of them, and shows the events up to there. -/
theorem FileRunJournal.load_cut [LawfulCbor F] (hlen : ∀ b, (Sha256.digest b).length = 32)
    {fsync : Bool} {j : FileRunJournal F} {ls : List (HistoryStep F)}
    (hopen : openJournal none fsync = .ok j)
    (hrun : run History.step ⟨j, j.runIds, []⟩ ls = some s) :
    ∃ headerFrame items frames, Written s.journal.store.file headerFrame items frames ∧
      List.Forall₂ (Holds false) s.appended items ∧
      (∀ k ≤ frames.length, ∃ disk,
        load (magic ++ headerFrame ++ (frames.take k).flatten) = .ok disk ∧
        Shows (items.take k) disk) ∧
      ∀ n, (∀ k ≤ frames.length, s.journal.store.file.take n ≠
          magic ++ headerFrame ++ (frames.take k).flatten) →
        ∃ m, (load (s.journal.store.file.take n) : Except (JournalError F) _) =
          .error (.corruption m) := by
  have hinv : ∃ headerFrame items frames, FileInv s headerFrame items frames := by
    refine run_invariant (I := fun s => ∃ headerFrame items frames,
      FileInv s headerFrame items frames) ?_ hrun (fileInv_of_openJournal hopen)
    rintro s l s' ⟨headerFrame, items, frames, h⟩ hs
    obtain ⟨items', frames', h'⟩ := h.step hlen hs
    exact ⟨headerFrame, items', frames', h'⟩
  obtain ⟨headerFrame, items, frames, h⟩ := hinv
  exact ⟨headerFrame, items, frames, h.written, h.appended,
    fun k hk => h.written.load_take hlen hk, fun n hn => h.written.load_inside hlen hn⟩

end Cuts

/-! ### Two runs, opened again between their events -/

section Demo

local instance truncatedHash : Sha256 := lengthHash

theorem FileRunJournal.load_cut_demo : ∃ (j : FileRunJournal ℚ) (s : History ℚ),
    openJournal none false = .ok j ∧
    run History.step ⟨j, j.runIds, []⟩ demoHistory = some s ∧
    ∃ (headerFrame : Bytes) (items : List (JournalEvent ℚ)) (frames : List Bytes),
      Written s.journal.store.file headerFrame items frames ∧ frames.length = 4 ∧
      ∃ disk, load (magic ++ headerFrame ++ (frames.take 3).flatten) = .ok disk ∧
        Shows (items.take 3) disk := by
  have hsome : (openJournal none false : Except (JournalError ℚ) _).toOption.any (fun j =>
      (run History.step ⟨j, j.runIds, []⟩ demoHistory).any fun s =>
        decide (s.appended.length = 4)) = true := by
    decide +kernel
  obtain ⟨j, hj, h⟩ := (Option.any_eq_true _ _).1 hsome
  obtain ⟨s, hs, hfour⟩ := (Option.any_eq_true _ _).1 h
  have hopen : openJournal none false = .ok j := toOption_eq_some.1 hj
  obtain ⟨headerFrame, items, frames, hwritten, happended, hload, -⟩ :=
    FileRunJournal.load_cut length_lengthHash hopen hs
  have hframes : frames.length = 4 := by
    rw [← hwritten.frames.length_eq, ← happended.length_eq]
    exact of_decide_eq_true hfour
  exact ⟨j, s, hopen, hs, headerFrame, items, frames, hwritten, hframes, hload 3 (by omega)⟩

end Demo

end RemoteRobot
