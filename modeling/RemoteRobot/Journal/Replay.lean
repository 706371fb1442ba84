import RemoteRobot.Journal.Store
import RemoteRobot.Lib.Except
import RemoteRobot.Lib.Transition

/-!
# Reopening a journal

A failed `os.fsync` leaves a frame in the file that memory knows nothing about, and the sequence
number of that frame is given again to the next event of the same run.  A file with two frames of
one number does not load.  `FileRunJournal.reopens_iff` says that this is the only way to lose an
event: after any calls of `append` the file loads, and shows every event that was returned, exactly
when no call writes a frame for a run that has an unsynced one.
-/

namespace RemoteRobot

open Py Except

variable {F : Type}

/-! ## Event data read back -/

section Plain

variable [PyFloat F] [PyText F]

theorem validateEntries_eq_ok {kvs : Dict F} {path : Str} :
    validateEntries kvs path = .ok () ↔ ∀ p ∈ kvs, ∃ key, p.1 = .str key ∧
      looksSecret F key = false ∧ validatePlainData p.2 (path ++ py "." ++ key) = .ok () := by
  induction kvs with
  | nil => simp [validateEntries]
  | cons p kvs ih =>
    obtain ⟨k, v⟩ := p
    rw [List.forall_mem_cons, ← ih]
    by_cases hk : ∃ key, k = .str key
    · obtain ⟨key, rfl⟩ := hk
      simp [validateEntries, bind_eq_ok, raiseWhen_eq_ok, exists_unit, and_assoc]
    · have herr : validateEntries ((k, v) :: kvs) path =
          .error (.typeError ⟨"% mapping keys must be strings", [.str path]⟩) := by
        cases k with
        | str key => exact absurd ⟨key, rfl⟩ hk
        | _ => rfl
      simp only [herr, reduceCtorEq, false_iff, not_and]
      rintro ⟨key, hkey, -⟩
      exact absurd ⟨key, hkey⟩ hk

mutual

/-- The check of plain data passes on what the data read back as, whatever the path. -/
theorem validatePlainData_reads : ∀ {v w : Val F} {path : Str}, v.Reads w →
    validatePlainData v path = .ok () → ∀ path', validatePlainData w path' = .ok ()
  | .none, _, _, h, _, _ | .bool _, _, _, h, _, _ | .int _, _, _, h, _, _ | .str _, _, _, h, _, _
  | .bytes _, _, _, h, _, _ => by rw [show _ = _ from h, validatePlainData]
  | .float x, _, _, h, hv, _ => by
    rw [validatePlainData, raiseWhen_eq_ok] at hv
    rw [show _ = _ from h, validatePlainData, raiseWhen_eq_ok]
    exact hv
  | .list vs, _, _, h, hv, path' | .tuple vs, _, _, h, hv, path' => by
    obtain ⟨ws, rfl, hws⟩ := h
    simp only [validatePlainData] at hv ⊢
    exact validateItems_reads hws hv path' 0
  | .dict a, _, _, h, hv, path' => by
    obtain ⟨b, c, rfl, hp, hc⟩ := h
    rw [validatePlainData] at hv ⊢
    have hall := validateEntries_eq_ok.1 (validateEntries_reads hc hv path')
    exact validateEntries_eq_ok.2 fun p hpb => hall p (hp.mem_iff.2 hpb)

theorem validateItems_reads : ∀ {vs ws : List (Val F)} {path : Str} {index : ℕ},
    Val.ReadsList vs ws → validateItems vs path index = .ok () →
    ∀ path' index', validateItems ws path' index' = .ok ()
  | [], _, _, _, h, _, _, _ => by rw [show _ = [] from h, validateItems]
  | v :: vs, _, _, _, h, hv, path', index' => by
    obtain ⟨w, ws', rfl, hw, hws⟩ := h
    simp only [validateItems, bind_eq_ok, exists_unit] at hv ⊢
    exact ⟨validatePlainData_reads hw hv.1 _, validateItems_reads hws hv.2 _ _⟩

theorem validateEntries_reads : ∀ {a c : Dict F} {path : Str}, Val.ReadsDict a c →
    validateEntries a path = .ok () → ∀ path', validateEntries c path' = .ok ()
  | [], _, _, h, _, _ => by rw [show _ = [] from h, validateEntries]
  | (k, v) :: a, _, _, h, hv, path' => by
    obtain ⟨w, c', rfl, hw, hc⟩ := h
    rw [validateEntries_eq_ok, List.forall_mem_cons] at hv
    obtain ⟨⟨key, rfl, hs, hval⟩, hrest⟩ := hv
    rw [validateEntries_eq_ok, List.forall_mem_cons, ← validateEntries_eq_ok]
    exact ⟨⟨key, rfl, hs, validatePlainData_reads hw hval _⟩,
      validateEntries_reads hc (validateEntries_eq_ok.2 hrest) path'⟩

end

theorem eventData_eq_ok {value : Val F} {data : Dict F} :
    eventData value = .ok data ↔ value = .dict data ∧
      (∀ k ∈ reservedEventKeys, hasStr k (data.map Prod.fst) = false) ∧
      validatePlainData value (py "event") = .ok () := by
  by_cases hd : ∃ kvs, value = .dict kvs
  · obtain ⟨kvs, rfl⟩ := hd
    simp only [eventData, bind_eq_ok, raiseWhen_eq_ok, exists_unit, not_not, Val.dict.injEq,
      Except.ok.injEq, List.filter_eq_nil_iff, Bool.not_eq_true]
    constructor
    · rintro ⟨h₁, h₂, rfl⟩
      exact ⟨rfl, h₁, h₂⟩
    · rintro ⟨rfl, h₁, h₂⟩
      exact ⟨h₁, h₂, rfl⟩
  · have herr : eventData value = .error (.typeError ⟨"event must be a mapping", []⟩) := by
      cases value with
      | dict kvs => exact absurd ⟨kvs, rfl⟩ hd
      | _ => rfl
    simp only [herr, reduceCtorEq, false_iff]
    rintro ⟨rfl, -⟩
    exact hd ⟨data, rfl⟩

/-- Event data that `append` accepts is accepted again when it is read back. -/
theorem eventData_reads {value w : Val F} {data : Dict F} (h : eventData value = .ok data)
    (hr : value.Reads w) : ∃ read, w = .dict read ∧ eventData w = .ok read := by
  obtain ⟨rfl, hkeys, hplain⟩ := eventData_eq_ok.1 h
  have hplain' := validatePlainData_reads hr hplain (py "event")
  obtain ⟨b, c, rfl, hp, hc⟩ := hr
  refine ⟨b, rfl, eventData_eq_ok.2 ⟨rfl, fun k hk => ?_, hplain'⟩⟩
  have hperm : (b.map Prod.fst).Perm (data.map Prod.fst) :=
    Val.readsDict_keys hc ▸ (hp.map Prod.fst).symm
  rw [← hkeys k hk, Bool.eq_iff_iff, hasStr_iff, hasStr_iff]
  exact hperm.mem_iff

end Plain

theorem validateRunId_eq_ok {runId : Val F} {owner : Str} (h : validateRunId runId = .ok owner) :
    runId = .str owner := by
  cases runId with
  | str s =>
    simp only [validateRunId] at h
    split_ifs at h
    rw [Except.ok.inj h]
  | _ => cases h

/-! ## Frames -/

section Frames

variable [Cbor F] [Sha256]

/-- A frame at the start of the file: its length, its checksum and its payload. -/
theorem decodeFrame_eq_ok {location : Str} {file rest : Bytes} {value : Dict F} :
    decodeFrame location file = .ok (some (value, rest)) ↔ ∃ checksum payload,
      Codec.readBe 4 0 file = some (payload.length, checksum ++ (payload ++ rest)) ∧
      checksum.length = 32 ∧ 0 < payload.length ∧ payload.length ≤ maxFrameBytes ∧
      decodePayload location checksum payload = .ok value := by
  constructor
  · intro h
    unfold decodeFrame corrupt at h
    split_ifs at h
    · cases h
    split at h
    · cases h
    · rename_i size tail hread
      split_ifs at h with h₁ h₂ h₃
      obtain ⟨value', hv, he⟩ := map_eq_ok.1 h
      simp only [Option.some.injEq, Prod.mk.injEq] at he
      obtain ⟨rfl, rfl⟩ := he
      have hsize : ((tail.drop 32).take size).length = size := by
        rw [List.length_take]
        omega
      refine ⟨tail.take 32, (tail.drop 32).take size, ?_, ?_, ?_, ?_, hv⟩
      · rw [hsize, List.take_append_drop, List.take_append_drop]
        exact hread
      · rw [List.length_take]
        omega
      · omega
      · omega
  · rintro ⟨checksum, payload, hread, h32, hpos, hmax, hv⟩
    have hne : file.isEmpty = false := by
      cases file with
      | nil => cases hread
      | cons => rfl
    have hdrop : (checksum ++ (payload ++ rest)).drop 32 = payload ++ rest := by
      rw [← h32, List.drop_left]
    have htake : (checksum ++ (payload ++ rest)).take 32 = checksum := by
      rw [← h32, List.take_left]
    have hsize : ¬(payload.length = 0 ∨ maxFrameBytes < payload.length) := by omega
    have htail : ¬(checksum ++ (payload ++ rest)).length < 32 := by
      rw [List.length_append]
      omega
    have hpay : ¬(payload ++ rest).length < payload.length := by
      rw [List.length_append]
      omega
    unfold decodeFrame
    simp only [hne, hread, hsize, htail, hdrop, hpay, htake, hv, List.take_left, List.drop_left,
      Bool.false_eq_true, if_false, Except.map]

theorem decodeFrame_append {location : Str} {file rest : Bytes} {value : Dict F}
    (h : decodeFrame location file = .ok (some (value, rest))) (more : Bytes) :
    decodeFrame location (file ++ more) = .ok (some (value, rest ++ more)) := by
  obtain ⟨checksum, payload, hread, hrest⟩ := decodeFrame_eq_ok.1 h
  refine decodeFrame_eq_ok.2 ⟨checksum, payload, ?_, hrest⟩
  rw [Codec.readBe_append hread, List.append_assoc, List.append_assoc]

theorem length_of_decodeFrame {location : Str} {file rest : Bytes} {value : Dict F}
    (h : decodeFrame location file = .ok (some (value, rest))) : rest.length < file.length := by
  obtain ⟨checksum, payload, hread, -⟩ := decodeFrame_eq_ok.1 h
  have := Codec.length_of_readBe hread
  simp only [List.length_append] at this
  omega

theorem decodeFrame_eq_none {location : Str} {file : Bytes}
    (h : (decodeFrame location file : Except (JournalError F) _) = .ok none) : file = [] := by
  unfold decodeFrame corrupt at h
  split_ifs at h with hnil
  · exact List.isEmpty_iff.1 hnil
  · split at h
    · cases h
    · split_ifs at h
      obtain ⟨_, -, he⟩ := map_eq_ok.1 h
      cases he

@[simp] theorem decodeFrame_nil (location : Str) :
    (decodeFrame location [] : Except (JournalError F) _) = .ok none := rfl

theorem frame_eq_ok {value : Val F} {bytes : Bytes} (h : frame value = .ok bytes) :
    ∃ payload, Cbor.dumps value = .ok payload ∧ 0 < payload.length ∧
      payload.length ≤ maxFrameBytes ∧
      bytes = Codec.beBytes 4 payload.length ++ Sha256.digest payload ++ payload := by
  unfold frame at h
  split at h
  · cases h
  · rename_i payload hd
    split_ifs at h with hp
    simp only [Bool.or_eq_true, List.isEmpty_iff, decide_eq_true_eq, not_or] at hp
    exact ⟨payload, hd, List.length_pos_iff.2 hp.1, Nat.not_lt.1 hp.2, (Except.ok.inj h).symm⟩

theorem frame_ne_nil {value : Val F} {bytes : Bytes} (h : frame value = .ok bytes) : bytes ≠ [] := by
  obtain ⟨payload, -, hpos, -, rfl⟩ := frame_eq_ok h
  intro hnil
  have := congrArg List.length hnil
  simp only [List.length_append, List.length_nil] at this
  omega

/-- A frame that was written is read back, whatever follows it in the file. -/
theorem decodeFrame_frame [LawfulCbor F] (hlen : ∀ b, (Sha256.digest b).length = 32)
    {kvs : Dict F} {bytes : Bytes} (h : frame (.dict kvs) = .ok bytes) :
    ∃ read, (Val.dict kvs).Reads (.dict read) ∧
      ∀ location rest, decodeFrame location (bytes ++ rest) = .ok (some (read, rest)) := by
  obtain ⟨payload, hd, hpos, hmax, rfl⟩ := frame_eq_ok h
  obtain ⟨w, hw, hr⟩ := LawfulCbor.loads_dumps _ _ hd
  obtain ⟨read, rfl⟩ : ∃ read, w = .dict read := by
    obtain ⟨b, _, rfl, -⟩ := hr
    exact ⟨b, rfl⟩
  refine ⟨read, hr, fun location rest => ?_⟩
  refine decodeFrame_eq_ok.2 ⟨Sha256.digest payload, payload, ?_, hlen _, hpos, hmax, ?_⟩
  · rw [List.append_assoc, List.append_assoc]
    apply Codec.readBe_beBytes_lt
    unfold maxFrameBytes at hmax
    omega
  · have hc : Cbor.dumps (Val.dict read) = .ok payload := (LawfulCbor.dumps_reads _ _ hr).trans hd
    simp [decodePayload, hw, hc]

end Frames

/-! ## Loading a file that grew -/

/-- `_load` knows the number of events of each run. -/
def Counts (expected : Table Str ℕ) (events : Table Str (List (JournalEvent F))) : Prop :=
  ∀ r, (expected.get r).getD 0 = ((events.get r).getD []).length

theorem Counts.empty : Counts (∅ : Table Str ℕ) (∅ : Table Str (List (JournalEvent F))) := by
  intro r
  rw [Table.get_empty, Table.get_empty]
  rfl

/-- The table with one more event of its run. -/
def push (events : Table Str (List (JournalEvent F))) (item : JournalEvent F) :
    Table Str (List (JournalEvent F)) :=
  events.insert item.runId ((events.get item.runId).getD [] ++ [item])

theorem get_push (events : Table Str (List (JournalEvent F))) (item : JournalEvent F) (r : Str) :
    ((push events item).get r).getD [] =
      (events.get r).getD [] ++ if r = item.runId then [item] else [] := by
  unfold push
  rw [Table.get_insert]
  split_ifs with h
  · rw [h, Option.getD_some]
  · rw [List.append_nil]

theorem Counts.push {expected : Table Str ℕ} {events : Table Str (List (JournalEvent F))}
    {item : JournalEvent F} (h : Counts expected events)
    (hseq : item.eventSeq = (expected.get item.runId).getD 0 + 1) :
    Counts (expected.insert item.runId item.eventSeq) (push events item) := by
  intro r
  rw [Table.get_insert, get_push, List.length_append]
  split_ifs with hr
  · rw [Option.getD_some, hseq, h, hr]
    rfl
  · rw [h]
    rfl

section Loading

variable [PyFloat F] [PyText F]

theorem eventSeq_of_eventFromRecord {record : Dict F} {expected : Table Str ℕ}
    {item : JournalEvent F} (h : eventFromRecord record expected = .ok item) :
    item.eventSeq = (expected.get item.runId).getD 0 + 1 := by
  simp only [eventFromRecord, bind_eq_ok] at h
  obtain ⟨_, -, owner, -, _, -, h⟩ := h
  split at h
  · cases h
  · obtain ⟨event, -, h⟩ := bind_eq_ok.1 h
    rw [← Except.ok.inj h]

variable [Cbor F] [Sha256]

/-- One turn of the loop of `_load`. -/
theorem loadFrames_eq_ok {n index : ℕ} {file : Bytes} {expected : Table Str ℕ}
    {events disk : Table Str (List (JournalEvent F))}
    (h : loadFrames (n + 1) index file expected events = .ok disk) :
    (file = [] ∧ events = disk) ∨ ∃ record rest item,
      decodeFrame (py "event frame " ++ natStr index) file = .ok (some (record, rest)) ∧
      eventFromRecord record expected = .ok item ∧
      loadFrames n (index + 1) rest (expected.insert item.runId item.eventSeq) (push events item) =
        .ok disk := by
  simp only [loadFrames, bind_eq_ok] at h
  obtain ⟨_ | ⟨record, rest⟩, hd, h⟩ := h
  · exact .inl ⟨decodeFrame_eq_none hd, Except.ok.inj h⟩
  · obtain ⟨item, hi, h⟩ := bind_eq_ok.1 h
    exact .inr ⟨record, rest, item, hd, hi, h⟩

theorem loadFrames_cons {n index : ℕ} {file rest : Bytes} {record : Dict F}
    {expected : Table Str ℕ} {events : Table Str (List (JournalEvent F))} {item : JournalEvent F}
    (hd : decodeFrame (py "event frame " ++ natStr index) file = .ok (some (record, rest)))
    (hi : eventFromRecord record expected = .ok item) :
    loadFrames (n + 1) index file expected events =
      loadFrames n (index + 1) rest (expected.insert item.runId item.eventSeq)
        (push events item) := by
  simp only [loadFrames, hd, bind, Except.bind, hi]
  rfl

/-- More fuel than bytes is as good as any. -/
theorem loadFrames_fuel {n m index : ℕ} {file : Bytes} {expected : Table Str ℕ}
    {events : Table Str (List (JournalEvent F))} (hn : file.length < n) (hm : file.length < m) :
    loadFrames n index file expected events = loadFrames m index file expected events := by
  induction n generalizing m index file expected events with
  | zero => omega
  | succ n ih =>
    obtain ⟨m, rfl⟩ := Nat.exists_eq_succ_of_ne_zero (show m ≠ 0 by omega)
    simp only [loadFrames]
    rcases hd : decodeFrame (py "event frame " ++ natStr index) file with e | _ | ⟨record, rest⟩
    · rfl
    · rfl
    · have hlt := length_of_decodeFrame hd
      simp only [bind, Except.bind]
      split
      · rfl
      · apply ih <;> omega

/-- The loop over a file that grew goes on where it stopped before. -/
theorem loadFrames_append {n index : ℕ} {file : Bytes} {expected : Table Str ℕ}
    {events disk : Table Str (List (JournalEvent F))}
    (h : loadFrames n index file expected events = .ok disk) (hc : Counts expected events) :
    ∃ index' expected', Counts expected' disk ∧ ∀ m more, (file ++ more).length < m →
      loadFrames m index (file ++ more) expected events =
        loadFrames (more.length + 1) index' more expected' disk := by
  induction n generalizing index file expected events with
  | zero => cases h
  | succ n ih =>
    obtain ⟨rfl, rfl⟩ | ⟨record, rest, item, hd, hi, h⟩ := loadFrames_eq_ok h
    · exact ⟨index, expected, hc, fun m more hm => loadFrames_fuel hm (Nat.lt_succ_self _)⟩
    · obtain ⟨index', expected', hc', hload⟩ := ih h (hc.push (eventSeq_of_eventFromRecord hi))
      refine ⟨index', expected', hc', fun m more hm => ?_⟩
      have hlt := length_of_decodeFrame hd
      rw [List.length_append] at hm
      obtain ⟨m, rfl⟩ := Nat.exists_eq_succ_of_ne_zero (show m ≠ 0 by omega)
      rw [loadFrames_cons (decodeFrame_append hd more) hi]
      apply hload
      rw [List.length_append]
      omega

theorem load_append {file : Bytes} {disk : Table Str (List (JournalEvent F))}
    (h : load file = .ok disk) : ∃ index expected, Counts expected disk ∧ ∀ more,
      load (file ++ more) = loadFrames (more.length + 1) index more expected disk := by
  unfold load at h
  split_ifs at h with hm
  · cases h
  rw [not_not] at hm
  obtain ⟨_ | ⟨value, rest⟩, hd, h⟩ := bind_eq_ok.1 h
  · cases h
  · simp only at h
    split_ifs at h with hv
    · obtain ⟨index, expected, hc, hload⟩ := loadFrames_append h .empty
      refine ⟨index, expected, hc, fun more => ?_⟩
      have h4 : 4 ≤ file.length := by
        have := congrArg List.length hm
        rw [List.length_take] at this
        simp only [magic, List.length_cons, List.length_nil] at this
        omega
      have htake : (file ++ more).take 4 = magic := (List.take_append_of_le_length h4).trans hm
      have hdrop : (file ++ more).drop 4 = file.drop 4 ++ more := List.drop_append_of_le_length h4
      unfold load
      rw [if_neg (not_not.2 htake), hdrop, decodeFrame_append hd more]
      simp only [bind, Except.bind, hv, if_true]
      exact hload _ _ (Nat.lt_succ_self _)
    · cases h

end Loading

/-! ## An event read back -/

/-- `b` is what the record of `a` is when the file is loaded. -/
structure ReadsAs (a b : JournalEvent F) : Prop where
  runId : b.runId = a.runId
  eventSeq : b.eventSeq = a.eventSeq
  recordedAtNs : b.recordedAtNs = a.recordedAtNs
  event : (Val.dict a.event).Reads (.dict b.event)

theorem field_reads {kvs : List (String × Val F)} {read : Dict F} {k : String} {v : Val F}
    (h : (dictOf kvs).Reads (.dict read)) (hnd : (kvs.map Prod.fst).Nodup)
    (hk : lookup (py k) (entries kvs) = some v) : v.Reads (field k read) := by
  obtain ⟨b, he, -, -, hfields⟩ := Val.Reads.fields h (nodup_entries hnd)
  obtain rfl : read = b := Val.dict.inj he
  obtain ⟨u, hu, hr⟩ := (hfields (py k)).1 v hk
  rw [field, hu, Option.getD_some]
  exact hr

theorem record_nodup (item : JournalEvent F) : (item.record.map Prod.fst).Nodup := by
  show ["version", "run_id", "event_seq", "recorded_at_ns", "event"].Nodup
  decide

section Accepted

variable [PyFloat F]

/-- The field set and the version of a record are right when it is read back. -/
theorem record_fields {item : JournalEvent F} {read : Dict F}
    (h : (dictOf item.record).Reads (.dict read)) :
    recordFields.all (fun k => hasStr k (read.map Prod.fst)) = true ∧
      read.all (fun p => recordFields.any fun k => Key.eq (.str (py k)) p.1) = true ∧
      Val.eq (field "version" read) (.int 2) = true := by
  obtain ⟨b, he, -, hkeys, -⟩ := Val.Reads.fields h (nodup_entries (record_nodup item))
  obtain rfl : read = b := Val.dict.inj he
  have hmem : ∀ k, k ∈ read.map Prod.fst ↔ ∃ s ∈ recordFields, k = Key.str (py s) := by
    intro k
    rw [hkeys.mem_iff]
    simp [JournalEvent.record, recordFields]
  refine ⟨?_, ?_, ?_⟩
  · rw [List.all_eq_true]
    intro k hk
    rw [hasStr_iff, hmem]
    exact ⟨k, hk, rfl⟩
  · rw [List.all_eq_true]
    intro p hp
    obtain ⟨s, hs, hps⟩ := (hmem p.1).1 (List.mem_map_of_mem hp)
    exact List.any_eq_true.2 ⟨s, hs, Key.eq_str_iff.2 hps⟩
  · have hv : field "version" read = .int 2 :=
      field_reads (k := "version") h (record_nodup item) rfl
    simp [hv, Val.eq]

variable [PyText F]

/-- The event passed the checks of `append`. -/
structure JournalEvent.Accepted (item : JournalEvent F) : Prop where
  runId : validateRunId (.str item.runId : Val F) = .ok item.runId
  event : eventData (.dict item.event) = .ok item.event

/-- `_event_from_record` on the record of an accepted event looks at the sequence number only. -/
theorem eventFromRecord_reads {item : JournalEvent F} {read : Dict F} (expected : Table Str ℕ)
    (ha : item.Accepted) (h : (dictOf item.record).Reads (.dict read)) :
    (item.eventSeq = (expected.get item.runId).getD 0 + 1 →
      ∃ item', ReadsAs item item' ∧ eventFromRecord read expected = .ok item') ∧
    (item.eventSeq ≠ (expected.get item.runId).getD 0 + 1 →
      ∃ e, eventFromRecord read expected = .error e) := by
  have hnd := record_nodup item
  have howner : field "run_id" read = .str item.runId :=
    field_reads (k := "run_id") (v := .str item.runId) h hnd (by simp [JournalEvent.record])
  have hseq : field "event_seq" read = .int item.eventSeq :=
    field_reads (k := "event_seq") (v := .int item.eventSeq) h hnd (by simp [JournalEvent.record])
  have htime : field "recorded_at_ns" read = .int item.recordedAtNs :=
    field_reads (k := "recorded_at_ns") (v := .int item.recordedAtNs) h hnd
      (by simp [JournalEvent.record])
  have hevent : (Val.dict item.event).Reads (field "event" read) :=
    field_reads (k := "event") h hnd (by simp [JournalEvent.record])
  obtain ⟨data, hdata, hok⟩ := eventData_reads ha.event hevent
  have hnat : ∀ n : ℕ, asNat (.int n : Val F) = some n := fun n => by
    rw [asNat, if_neg (by omega), Int.toNat_natCast]
  unfold eventFromRecord
  rw [raiseWhen_eq_ok (u := ()) |>.2 (not_not.2 (record_fields h))]
  simp only [howner, ha.runId, asCorruption, hseq, htime, hnat, hok, bind, Except.bind]
  constructor
  · intro he
    rw [raiseWhen_eq_ok (u := ()) |>.2 (not_not.2 (congrArg some he))]
    exact ⟨⟨item.runId, (expected.get item.runId).getD 0 + 1, item.recordedAtNs, data⟩,
      ⟨rfl, he.symm, rfl, hdata ▸ hevent⟩, rfl⟩
  · intro hne
    exact ⟨_, by rw [raiseWhen, if_pos fun hs => hne (Option.some.inj hs)]⟩

end Accepted

/-! ## Sequence numbers -/

/-- The events of each run are numbered from 1. -/
def Numbered (events : Table Str (List (JournalEvent F))) : Prop :=
  ∀ r i e, ((events.get r).getD [])[i]? = some e → e.eventSeq = i + 1

theorem Numbered.push {events : Table Str (List (JournalEvent F))} {item : JournalEvent F}
    (h : Numbered events)
    (hseq : item.eventSeq = ((events.get item.runId).getD []).length + 1) :
    Numbered (push events item) := by
  intro r i e he
  rw [get_push] at he
  by_cases hi : i < ((events.get r).getD []).length
  · rw [List.getElem?_append_left hi] at he
    exact h r i e he
  · rw [List.getElem?_append_right (Nat.not_lt.1 hi)] at he
    split_ifs at he with hr
    · obtain ⟨h0, rfl⟩ := List.getElem?_eq_some_iff.1 he
      have hi' : i - ((events.get r).getD []).length = 0 := by simpa using h0
      rw [List.getElem_singleton, hseq, ← hr]
      omega
    · cases he

theorem header_eq [PyFloat F] {read : Dict F} (h : (header : Val F).Reads (.dict read)) :
    Val.eq (.dict read) header = true := by
  obtain ⟨b, c, he, hp, hc⟩ := h
  obtain rfl : read = b := Val.dict.inj he
  obtain ⟨_, _, rfl, rfl, _, _, rfl, rfl, rfl⟩ := hc
  have hlen : read.length = 2 := hp.length_eq.symm
  have hsub : Val.subDict read (entries [("format", Val.str (py "remote-robot-run-journal")),
      ("version", .int 2)]) = true := by
    apply Val.subDict_of_forall
    intro p hpr
    have hmem := hp.mem_iff.2 hpr
    simp only [List.mem_cons, List.not_mem_nil, or_false] at hmem
    obtain rfl | rfl := hmem
    · exact ⟨_, rfl, by simp [Val.eq]⟩
    · exact ⟨_, rfl, by simp [Val.eq]⟩
  simpa [header, dictOf, Val.eq, hlen] using hsub

section Loaded

variable [Cbor F] [Sha256] [PyFloat F] [PyText F]

theorem loadFrames_numbered {n index : ℕ} {file : Bytes} {expected : Table Str ℕ}
    {events disk : Table Str (List (JournalEvent F))}
    (h : loadFrames n index file expected events = .ok disk) (hc : Counts expected events)
    (hn : Numbered events) : Numbered disk := by
  induction n generalizing index file expected events with
  | zero => cases h
  | succ n ih =>
    obtain ⟨-, rfl⟩ | ⟨record, rest, item, -, hi, h⟩ := loadFrames_eq_ok h
    · exact hn
    · have hseq := eventSeq_of_eventFromRecord hi
      exact ih h (hc.push hseq) (hn.push (hc item.runId ▸ hseq))

/-- What `_load` returns is numbered. -/
theorem load_numbered {file : Bytes} {disk : Table Str (List (JournalEvent F))}
    (h : load file = .ok disk) : Numbered disk := by
  unfold load at h
  split_ifs at h
  · cases h
  obtain ⟨_ | ⟨value, rest⟩, -, h⟩ := bind_eq_ok.1 h
  · cases h
  · simp only at h
    split_ifs at h
    · refine loadFrames_numbered h .empty ?_
      intro r i e he
      simp at he
    · cases h

/-- The file with one more frame, of an event that passed the checks: it loads when the number of
the event is the next one of its run, and otherwise no longer, whatever is added later. -/
theorem load_frame [LawfulCbor F] (hlen : ∀ b, (Sha256.digest b).length = 32) {file bytes : Bytes}
    {disk : Table Str (List (JournalEvent F))} {item : JournalEvent F} (h : load file = .ok disk)
    (ha : item.Accepted) (hb : frame (dictOf item.record) = .ok bytes) :
    (item.eventSeq = ((disk.get item.runId).getD []).length + 1 →
      ∃ item', ReadsAs item item' ∧ load (file ++ bytes) = .ok (push disk item')) ∧
    (item.eventSeq ≠ ((disk.get item.runId).getD []).length + 1 →
      ∀ more, ∃ e, (load (file ++ bytes ++ more) : Except (JournalError F) _) = .error e) := by
  obtain ⟨index, expected, hc, hload⟩ := load_append h
  obtain ⟨read, hr, hd⟩ := decodeFrame_frame hlen hb
  obtain ⟨hok, herr⟩ := eventFromRecord_reads expected ha hr
  rw [hc] at hok herr
  constructor
  · intro hseq
    obtain ⟨item', hreads, hi⟩ := hok hseq
    have hd' := hd (py "event frame " ++ natStr index) []
    rw [List.append_nil] at hd'
    obtain ⟨n, hn⟩ := Nat.exists_eq_succ_of_ne_zero (List.length_pos_iff.2 (frame_ne_nil hb)).ne'
    refine ⟨item', hreads, ?_⟩
    rw [hload, loadFrames_cons hd' hi, hn]
    rfl
  · intro hseq more
    obtain ⟨e, he⟩ := herr hseq
    refine ⟨e, ?_⟩
    rw [List.append_assoc, hload]
    simp only [loadFrames, hd, bind, Except.bind, he]

/-- A new file has a header and no events. -/
theorem load_magic [LawfulCbor F] (hlen : ∀ b, (Sha256.digest b).length = 32) {bytes : Bytes}
    (h : frame (header : Val F) = .ok bytes) :
    (load (magic ++ bytes) : Except (JournalError F) _) = .ok ∅ := by
  obtain ⟨read, hr, hd⟩ := decodeFrame_frame hlen h
  have hd' := hd (py "header") []
  rw [List.append_nil] at hd'
  have hdrop : (magic ++ bytes).drop 4 = bytes := rfl
  have htake : (magic ++ bytes).take 4 = magic := rfl
  unfold load
  rw [if_neg (not_not.2 htake), hdrop, hd']
  simp only [bind, Except.bind, header_eq hr, if_true]
  rfl

end Loaded

/-! ## Appending while `os.fsync` fails -/

/-- One call of `append`, with the time it reads and whether `os.fsync` raises. -/
structure AppendCall (F : Type) where
  runId : Val F
  event : Val F
  timeNs : ℕ
  fsyncFails : Bool := false

/-- A journal in use: the events `append` returned so far, and the run ids of the calls that wrote
a frame and raised. -/
structure Session (F : Type) where
  journal : FileRunJournal F
  returned : List (JournalEvent F) := []
  unsynced : List (Val F) := []

namespace Session

/-- The events returned for a run. -/
def returnedFor (s : Session F) (r : Str) : List (JournalEvent F) :=
  s.returned.filter fun e => e.runId = r

theorem returnedFor_append {s s' : Session F} {item : JournalEvent F}
    (h : s'.returned = s.returned ++ [item]) (r : Str) :
    s'.returnedFor r = s.returnedFor r ++ if r = item.runId then [item] else [] := by
  unfold returnedFor
  rw [h, List.filter_append]
  by_cases hr : r = item.runId
  · simp [hr]
  · simp [hr, Ne.symm hr]

section Steps

variable [Cbor F] [Sha256] [PyFloat F] [PyText F]

def step (s : Session F) (c : AppendCall F) : Option (Session F) :=
  match s.journal.append (persistRecord c.fsyncFails) c.runId c.event c.timeNs with
  | (journal, .ok item) => some { s with journal, returned := s.returned ++ [item] }
  | (journal, .error _) =>
    if journal.store.file = s.journal.store.file then some { s with journal }
    else some { s with journal, unsynced := c.runId :: s.unsynced }

/-- The call writes a frame with this event in it. -/
def Writes (s : Session F) (c : AppendCall F) (item : JournalEvent F) (bytes : Bytes) : Prop :=
  s.journal.newItem c.runId c.event c.timeNs = .ok item ∧ frame (dictOf item.record) = .ok bytes

/-- The call writes no frame for a run in which `os.fsync` has raised. -/
def Synced (s : Session F) (c : AppendCall F) : Prop :=
  ∀ item bytes, s.Writes c item bytes → c.runId ∉ s.unsynced

/-- After `close` the file opens again, and the replay of every run has the events that were
returned for it, in order. -/
def Reopens (s : Session F) : Prop :=
  ∃ j : FileRunJournal F,
    openJournal (some s.journal.close.store.file) s.journal.store.fsync = .ok j ∧
    ∀ runId : Str, validateRunId (.str runId : Val F) = .ok runId →
      ∃ events, j.replay (.str runId) (.int 0) = .ok events ∧
        List.SublistForall₂ ReadsAs (s.returnedFor runId) events

end Steps

end Session

section NewItem

variable {σ : Type} [PyFloat F] [PyText F]

theorem newItem_eq_ok {j : RunJournal F σ} {runId event : Val F} {timeNs : ℕ}
    {item : JournalEvent F} (h : j.newItem runId event timeNs = .ok item) :
    runId = .str item.runId ∧ item.Accepted ∧
      item.eventSeq = (j.eventsOf item.runId).length + 1 := by
  simp only [RunJournal.newItem, bind_eq_ok, raiseWhen_eq_ok, exists_unit] at h
  obtain ⟨owner, ho, data, hd, -, -, h⟩ := h
  obtain rfl := Except.ok.inj h
  obtain rfl := validateRunId_eq_ok ho
  have hdict := (eventData_eq_ok.1 hd).1
  exact ⟨rfl, ⟨ho, hdict ▸ hd⟩, rfl⟩

end NewItem

theorem eventsOf_insert {σ : Type} (j : RunJournal F σ) (store : σ) (owner : Str)
    (events : List (JournalEvent F)) (r : Str) :
    RunJournal.eventsOf { j with store, eventsByRun := j.eventsByRun.insert owner events } r =
      if r = owner then events else j.eventsOf r := by
  unfold RunJournal.eventsOf
  rw [Table.get_insert]
  split_ifs <;> rfl

namespace Session

section Steps

variable [Cbor F] [Sha256] [PyFloat F] [PyText F]

/-- What a call does: nothing that can be seen, or a frame is added to the file and the event is
returned, or a frame is added and `os.fsync` raises. -/
theorem step_cases {s s' : Session F} {c : AppendCall F} (h : s.step c = some s') :
    (s'.journal.store = s.journal.store ∧ s'.journal.eventsOf = s.journal.eventsOf ∧
      s'.returned = s.returned ∧ s'.unsynced = s.unsynced ∧
      ∀ item bytes, ¬s.Writes c item bytes) ∨
    ∃ item bytes, s.Writes c item bytes ∧
      s'.journal.store = { s.journal.store with file := s.journal.store.file ++ bytes } ∧
      ((s'.returned = s.returned ++ [item] ∧ s'.unsynced = s.unsynced ∧
        ∀ r, s'.journal.eventsOf r =
          s.journal.eventsOf r ++ if r = item.runId then [item] else []) ∨
      (s'.returned = s.returned ∧ s'.unsynced = c.runId :: s.unsynced ∧
        s'.journal.eventsOf = s.journal.eventsOf ∧ c.fsyncFails = true)) := by
  unfold step RunJournal.append at h
  rcases hi : s.journal.newItem c.runId c.event c.timeNs with e | item
  · have hw : ∀ item bytes, ¬s.Writes c item bytes := by
      rintro item bytes ⟨hitem, -⟩
      rw [hi] at hitem
      cases hitem
    simp only [hi, if_true] at h
    obtain rfl := Option.some.inj h
    exact .inl ⟨rfl, rfl, rfl, rfl, hw⟩
  · have hsame : ∀ store : FileStore, RunJournal.eventsOf { s.journal with
        store, eventsByRun := s.journal.eventsByRun.insert item.runId
          (s.journal.eventsOf item.runId) } = s.journal.eventsOf := by
      intro store
      funext r
      rw [eventsOf_insert]
      split_ifs with hr
      · rw [hr]
      · rfl
    unfold persistRecord at h
    rcases hf : frame (dictOf item.record) with e | bytes
    · have hw : ∀ item bytes, ¬s.Writes c item bytes := by
        rintro item' bytes ⟨hitem, hb⟩
        obtain rfl := Except.ok.inj (hi.symm.trans hitem)
        rw [hf] at hb
        cases hb
      simp only [hi, hf, if_true] at h
      obtain rfl := Option.some.inj h
      exact .inl ⟨rfl, hsame _, rfl, rfl, hw⟩
    · refine .inr ⟨item, bytes, ⟨hi, hf⟩, ?_⟩
      have hgrown : ¬s.journal.store.file ++ bytes = s.journal.store.file := fun he =>
        frame_ne_nil hf (List.append_right_eq_self.1 he)
      by_cases hsync : (s.journal.store.fsync && c.fsyncFails) = true
      · simp only [hi, hf, hsync, if_true, hgrown, if_false] at h
        obtain rfl := Option.some.inj h
        exact ⟨rfl, .inr ⟨rfl, rfl, hsame _, (Bool.and_eq_true_iff.1 hsync).2⟩⟩
      · simp only [hi, hf, hsync] at h
        obtain rfl := Option.some.inj h
        refine ⟨rfl, .inl ⟨rfl, rfl, fun r => ?_⟩⟩
        rw [eventsOf_insert]
        split_ifs with hr
        · rw [hr]
        · rw [List.append_nil]

theorem exists_run (s : Session F) (calls : List (AppendCall F)) :
    ∃ s', Transition.run step s calls = some s' := by
  induction calls generalizing s with
  | nil => exact ⟨s, rfl⟩
  | cons c calls ih =>
    obtain ⟨m, hm⟩ : ∃ m, s.step c = some m := by
      unfold step
      split
      · exact ⟨_, rfl⟩
      · split_ifs <;> exact ⟨_, rfl⟩
    obtain ⟨s', hs'⟩ := ih m
    exact ⟨s', Transition.run_cons_eq_some.2 ⟨m, hm, hs'⟩⟩

/-- A caller that leaves a run alone after `os.fsync` raised for it is safe. -/
theorem along_of_pairwise {s : Session F} {calls : List (AppendCall F)}
    (h : calls.Pairwise fun c c' => c.fsyncFails = true → c'.runId ≠ c.runId)
    (hs : ∀ c ∈ calls, c.runId ∉ s.unsynced) :
    Transition.Along step Synced s calls := by
  induction calls generalizing s with
  | nil => trivial
  | cons c calls ih =>
    rw [List.pairwise_cons] at h
    refine ⟨fun _ _ _ => hs c List.mem_cons_self, fun s' hs' => ih h.2 fun c' hc' => ?_⟩
    have hold := hs c' (List.mem_cons_of_mem _ hc')
    obtain ⟨-, -, -, huns, -⟩ | ⟨_, _, -, -, ⟨-, huns, -⟩ | ⟨-, huns, -, hfail⟩⟩ := step_cases hs'
    · rwa [huns]
    · rwa [huns]
    · rw [huns, List.mem_cons, not_or]
      exact ⟨h.1 c' hc' hfail, hold⟩

/-- The file of the session does not load, whatever is added to it. -/
def Doomed (s : Session F) : Prop :=
  ∀ more, ∃ e, (load (s.journal.store.file ++ more) : Except (JournalError F) _) = .error e

/-- The file and the memory of a session whose file loads as `disk`: for each run both start with
the events that were there when the journal was opened, then come those returned since, and the
file may have one more, not synced. -/
structure OnDisk (s : Session F) (disk : Table Str (List (JournalEvent F))) : Prop where
  loads : load s.journal.store.file = .ok disk
  events : ∀ r, ∃ opened read tail, (disk.get r).getD [] = opened ++ read ++ tail ∧
    s.journal.eventsOf r = opened ++ s.returnedFor r ∧
    List.Forall₂ ReadsAs (s.returnedFor r) read ∧
    (.str r ∉ s.unsynced → tail = []) ∧ (.str r ∈ s.unsynced → tail.length = 1)

theorem OnDisk.length {s : Session F} {disk : Table Str (List (JournalEvent F))}
    (h : s.OnDisk disk) (r : Str) :
    (.str r ∉ s.unsynced → ((disk.get r).getD []).length = (s.journal.eventsOf r).length) ∧
      (.str r ∈ s.unsynced →
        ((disk.get r).getD []).length = (s.journal.eventsOf r).length + 1) := by
  obtain ⟨opened, read, tail, hdisk, hmem, hreads, hnone, hone⟩ := h.events r
  have hlen := hreads.length_eq
  constructor
  · intro hr
    rw [hdisk, hmem, hnone hr]
    simp [hlen]
  · intro hr
    have htail := hone hr
    rw [hdisk, hmem]
    simp only [List.length_append]
    omega

variable [LawfulCbor F] (hlen : ∀ b, (Sha256.digest b).length = 32)

include hlen

/-- A step that writes no frame after an unsynced one of its run keeps file and memory together. -/
theorem OnDisk.step {s s' : Session F} {c : AppendCall F}
    {disk : Table Str (List (JournalEvent F))} (h : s.OnDisk disk) (hs : s.step c = some s')
    (hc : s.Synced c) : ∃ disk', s'.OnDisk disk' := by
  obtain ⟨hstore, hevents, hret, huns, -⟩ | ⟨item, bytes, hw, hstore, hrest⟩ := step_cases hs
  · refine ⟨disk, hstore ▸ h.loads, ?_⟩
    unfold returnedFor
    rw [hevents, hret, huns]
    exact h.events
  · obtain ⟨hrun, hacc, hseq⟩ := newItem_eq_ok hw.1
    have hmem : .str item.runId ∉ s.unsynced := hrun ▸ hc item bytes hw
    rw [← (h.length item.runId).1 hmem] at hseq
    obtain ⟨item', hreads, hload⟩ := (load_frame hlen h.loads hacc hw.2).1 hseq
    refine ⟨push disk item', by rw [hstore]; exact hload, fun r => ?_⟩
    obtain ⟨opened, read, tail, hdisk, hold, hall, hnone, hone⟩ := h.events r
    rw [get_push, hreads.runId, hdisk]
    obtain ⟨hret, huns, hevents⟩ | ⟨hret, huns, hevents, -⟩ := hrest
    · rw [hevents, hold, returnedFor_append hret, huns]
      by_cases hr : r = item.runId
      · rw [if_pos hr, if_pos hr, hnone (hr ▸ hmem), List.append_nil]
        refine ⟨opened, read ++ [item'], [], ?_, ?_, ?_, fun _ => rfl, fun hin => ?_⟩
        · rw [List.append_nil, List.append_assoc]
        · rw [List.append_assoc]
        · exact List.rel_append hall (.cons hreads .nil)
        · exact absurd (hr ▸ hin) hmem
      · rw [if_neg hr, if_neg hr, List.append_nil, List.append_nil, List.append_nil]
        exact ⟨opened, read, tail, rfl, rfl, hall, hnone, hone⟩
    · have hsame : s'.returnedFor r = s.returnedFor r := by
        unfold returnedFor
        rw [hret]
      rw [hevents, hold, hsame, huns, hrun]
      by_cases hr : r = item.runId
      · rw [if_pos hr, hnone (hr ▸ hmem), List.append_nil]
        refine ⟨opened, read, [item'], rfl, rfl, hall, fun hin => ?_, fun _ => rfl⟩
        exact absurd (hr ▸ List.mem_cons_self) hin
      · rw [if_neg hr, List.append_nil]
        have hne : (.str r : Val F) ≠ .str item.runId := fun he => hr (Val.str.inj he)
        refine ⟨opened, read, tail, rfl, rfl, hall, fun hin => hnone ?_, fun hin => hone ?_⟩
        · exact fun hin' => hin (List.mem_cons_of_mem _ hin')
        · exact (List.mem_cons.1 hin).resolve_left hne

/-- The other steps write a frame with a number that is in the file already. -/
theorem OnDisk.doomed {s s' : Session F} {c : AppendCall F}
    {disk : Table Str (List (JournalEvent F))} (h : s.OnDisk disk) (hs : s.step c = some s')
    (hc : ¬s.Synced c) : s'.Doomed := by
  unfold Synced at hc
  simp only [not_forall, not_not] at hc
  obtain ⟨item, bytes, hw, hin⟩ := hc
  obtain ⟨hrun, hacc, hseq⟩ := newItem_eq_ok hw.1
  obtain ⟨-, -, -, -, hno⟩ | ⟨item', bytes', hw', hstore, -⟩ := step_cases hs
  · exact absurd hw (hno item bytes)
  · obtain rfl := Except.ok.inj (hw.1.symm.trans hw'.1)
    obtain rfl := Except.ok.inj (hw.2.symm.trans hw'.2)
    have hne : item.eventSeq ≠ ((disk.get item.runId).getD []).length + 1 := by
      rw [(h.length item.runId).2 (hrun ▸ hin), hseq]
      omega
    unfold Doomed
    rw [hstore]
    exact (load_frame hlen h.loads hacc hw.2).2 hne

omit [LawfulCbor F] hlen in
theorem Doomed.step {s s' : Session F} {c : AppendCall F} (h : s.Doomed)
    (hs : s.step c = some s') : s'.Doomed := by
  obtain ⟨hstore, -⟩ | ⟨item, bytes, -, hstore, -⟩ := step_cases hs
  · unfold Doomed
    rw [hstore]
    exact h
  · intro more
    rw [hstore, List.append_assoc]
    exact h _

omit hlen [LawfulCbor F] in
theorem Doomed.not_reopens {s : Session F} (h : s.Doomed) : ¬s.Reopens := by
  rintro ⟨j, hj, -⟩
  obtain ⟨disk, hload, -⟩ := map_eq_ok.1 hj
  obtain ⟨e, he⟩ := h []
  rw [List.append_nil] at he
  exact nomatch he.symm.trans hload

omit hlen [LawfulCbor F] in
theorem OnDisk.reopens {s : Session F} {disk : Table Str (List (JournalEvent F))}
    (h : s.OnDisk disk) : s.Reopens := by
  refine ⟨_, map_eq_ok.2 ⟨disk, h.loads, rfl⟩, fun r hr => ?_⟩
  obtain ⟨opened, read, tail, hdisk, -, hall, -⟩ := h.events r
  refine ⟨(disk.get r).getD [], ?_, ?_⟩
  · have hpos : ∀ e ∈ (disk.get r).getD [], decide (0 < e.eventSeq) = true := by
      intro e he
      obtain ⟨i, hi⟩ := List.mem_iff_getElem?.1 he
      rw [load_numbered h.loads r i e hi]
      exact decide_eq_true (Nat.succ_pos i)
    unfold RunJournal.replay
    rw [hr]
    exact congrArg Except.ok (List.filter_eq_self.2 hpos)
  · rw [hdisk, List.sublistForall₂_iff]
    refine ⟨read, hall, ?_⟩
    exact (List.sublist_append_right _ _).trans (List.sublist_append_left _ _)

theorem onDisk_of_openJournal {path : Option Bytes} {fsync : Bool} {j : FileRunJournal F}
    (h : openJournal path fsync = .ok j) :
    ∃ disk, ({ journal := j } : Session F).OnDisk disk := by
  cases path with
  | some file =>
    obtain ⟨disk, hload, rfl⟩ := map_eq_ok.1 h
    refine ⟨disk, hload, fun r => ⟨(disk.get r).getD [], [], [], ?_, ?_, .nil, fun _ => rfl, ?_⟩⟩
    · simp
    · exact (List.append_nil _).symm
    · intro hin
      cases hin
  | none =>
    obtain ⟨bytes, hf, rfl⟩ := map_eq_ok.1 h
    refine ⟨∅, load_magic hlen hf, fun r => ⟨[], [], [], ?_, ?_, .nil, fun _ => rfl, ?_⟩⟩
    · simp
    · simp [RunJournal.eventsOf, returnedFor]
    · intro hin
      cases hin

theorem OnDisk.reopens_iff_along {s s' : Session F} {calls : List (AppendCall F)}
    {disk : Table Str (List (JournalEvent F))} (h : s.OnDisk disk)
    (hrun : Transition.run Session.step s calls = some s') :
    s'.Reopens ↔ Transition.Along Session.step Synced s calls := by
  induction calls generalizing s disk with
  | nil =>
    obtain rfl := Option.some.inj hrun
    exact ⟨fun _ => trivial, fun _ => h.reopens⟩
  | cons c calls ih =>
    obtain ⟨m, hm, hrest⟩ := Transition.run_cons_eq_some.1 hrun
    by_cases hc : s.Synced c
    · obtain ⟨disk', h'⟩ := h.step hlen hm hc
      rw [ih h' hrest]
      constructor
      · intro halong
        exact ⟨hc, fun m' hm' => Option.some.inj (hm.symm.trans hm') ▸ halong⟩
      · exact fun halong => halong.2 m hm
    · have hdoomed : s'.Doomed :=
        Transition.run_invariant (fun _ _ _ hd hs => hd.step hs) hrest (h.doomed hlen hm hc)
      exact ⟨fun hre => absurd hre hdoomed.not_reopens, fun halong => absurd halong.1 hc⟩

end Steps

end Session

section Restart

variable [Cbor F] [LawfulCbor F] [Sha256] [PyFloat F] [PyText F]

/-- A file journal, new or found on the disk, after any calls of `append` in which `os.fsync` may
raise: it opens again, with every event that was returned in the replay of its run, if and only if
no call wrote a frame for a run of which a call had written a frame and raised. -/
theorem FileRunJournal.reopens_iff (hlen : ∀ b, (Sha256.digest b).length = 32)
    {path : Option Bytes} {fsync : Bool} {j : FileRunJournal F} {calls : List (AppendCall F)}
    {s : Session F} (hopen : openJournal path fsync = .ok j)
    (hrun : Transition.run Session.step { journal := j } calls = some s) :
    s.Reopens ↔ Transition.Along Session.step Session.Synced { journal := j } calls := by
  obtain ⟨disk, hdisk⟩ := Session.onDisk_of_openJournal hlen hopen
  exact hdisk.reopens_iff_along hlen hrun

end Restart

section Demo

local instance journalHash : Sha256 := lengthHash

def demoAppend (runId : String) (fsyncFails : Bool) : AppendCall ℚ :=
  { runId := .str (py runId), event := dictOf [("type", .str (py "run.queued"))], timeNs := 7,
    fsyncFails }

theorem demoJournal_opens : ∃ j : FileRunJournal ℚ, openJournal none true = .ok j := by
  have hok : (openJournal none true : Except (JournalError ℚ) _).isOk = true := by decide +kernel
  exact exists_of_isOk hok

theorem FileRunJournal.reopens_iff_demo : ∃ (j : FileRunJournal ℚ) (s : Session ℚ),
    openJournal none true = .ok j ∧
    Transition.run Session.step { journal := j }
      [demoAppend "run-1" false, demoAppend "run-2" true, demoAppend "run-1" false] = some s ∧
    s.Reopens := by
  obtain ⟨j, hj⟩ := demoJournal_opens
  obtain ⟨s, hs⟩ := Session.exists_run { journal := j }
    [demoAppend "run-1" false, demoAppend "run-2" true, demoAppend "run-1" false]
  refine ⟨j, s, hj, hs, (FileRunJournal.reopens_iff length_lengthHash hj hs).2 ?_⟩
  apply Session.along_of_pairwise
  · simp [demoAppend]
  · intro c _ hc
    cases hc

/-- What the file of the journal loads as after the calls. -/
def loadAfter (calls : List (AppendCall ℚ)) :
    Option (Except (JournalError ℚ) (Table Str (List (JournalEvent ℚ)))) :=
  (openJournal none true : Except (JournalError ℚ) _).toOption.bind fun j =>
    (Transition.run Session.step { journal := j } calls).map fun s =>
      load s.journal.store.file

theorem FileRunJournal.reopens_counterexample : ∃ (j : FileRunJournal ℚ) (s : Session ℚ),
    openJournal none true = .ok j ∧
    Transition.run Session.step { journal := j }
      [demoAppend "run-1" true, demoAppend "run-1" false] = some s ∧
    ¬s.Reopens := by
  have hlost : (loadAfter [demoAppend "run-1" true, demoAppend "run-1" false]).all
      (fun r => !r.isOk) = true := by decide +kernel
  obtain ⟨j, hj⟩ := demoJournal_opens
  obtain ⟨s, hs⟩ := Session.exists_run { journal := j }
    [demoAppend "run-1" true, demoAppend "run-1" false]
  refine ⟨j, s, hj, hs, ?_⟩
  rintro ⟨j', hj', -⟩
  obtain ⟨disk, hload, -⟩ := map_eq_ok.1 hj'
  unfold loadAfter at hlost
  rw [hj] at hlost
  simp only [Except.toOption, Option.bind_some, hs, Option.map_some, Option.all_some] at hlost
  have hload' : load s.journal.store.file = .ok disk := hload
  rw [hload'] at hlost
  cases hlost

end Demo

end RemoteRobot
