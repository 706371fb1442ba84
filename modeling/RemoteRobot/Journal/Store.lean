import RemoteRobot.Lib.CborCodec
import RemoteRobot.Lib.Table
import RemoteRobot.Model

/-!
# The run journal

`journal.py`: one base class with the event lists of all runs, and two stores below it, one in
memory and one in a file of length-prefixed, checksummed frames.  The file is its bytes; the buffer
of the file handle is not modelled, since `append` flushes it before `fsync`.
-/

namespace RemoteRobot

open Py Except

variable {F : Type}

/-! ## Exceptions -/

inductive JournalError (F : Type) where
  | typeError (m : Message F)
  | valueError (m : Message F)
  | secretData (m : Message F)
  | readOnly (m : Message F)
  | corruption (m : Message F)
  /-- raised by the CBOR library -/
  | encoding (e : Exc)
  | osError

/-- `except (TypeError, ValueError, SecretDataError)`; the last is a `ValueError`. -/
def JournalError.isDataError : JournalError F → Bool
  | .typeError _ | .valueError _ | .secretData _ => true
  | _ => false

/-! ## Checks of the input -/

/-- `_validate_run_id` -/
def validateRunId (runId : Val F) : Except (JournalError F) Str :=
  match runId with
  | .str s =>
    if s.isEmpty || s != strip s then
      .error (.valueError ⟨"run_id must be a non-empty canonical string", []⟩)
    else if 512 < s.length || s.any fun c => c < 32 then
      .error (.valueError ⟨"run_id contains invalid characters", []⟩)
    else .ok s
  | _ => .error (.typeError ⟨"run_id must be a string", []⟩)

/-- `_FORBIDDEN_KEYS` -/
def forbiddenKeys : List String :=
  ["api_key", "authorization", "cookie", "credential", "credentials", "password", "private_key",
    "refresh_token", "secret", "serial_credentials", "set_cookie", "token"]

def secretSuffixes : List String := ["_password", "_secret", "_credential", "_credentials", "_token"]

/-- `_looks_secret` -/
def looksSecret (F : Type) [PyText F] (key : Str) : Bool :=
  let normalized := (PyText.casefold F key).map fun c => if c = 45 ∨ c = 32 then 95 else c
  forbiddenKeys.any (fun s => normalized == py s) ||
    secretSuffixes.any fun s => (py s).isSuffixOf normalized

section Plain

variable [PyFloat F] [PyText F]

mutual

/-- `_validate_plain_data` -/
def validatePlainData : Val F → Str → Except (JournalError F) Unit
  | .float x, path => raiseWhen (PyFloat.isFinite x = false)
      (.valueError ⟨"% contains a non-finite float", [.str path]⟩)
  | .dict kvs, path => validateEntries kvs path
  | .list vs, path | .tuple vs, path => validateItems vs path 0
  | .none, _ | .bool _, _ | .int _, _ | .str _, _ | .bytes _, _ => .ok ()

/-- The loop over a mapping. -/
def validateEntries : Dict F → Str → Except (JournalError F) Unit
  | [], _ => .ok ()
  | (.str key, child) :: kvs, path => do
    raiseWhen (looksSecret F key = true)
      (.secretData ⟨"refusing to journal secret-like field %.%", [.str path, .str key]⟩)
    validatePlainData child (path ++ py "." ++ key)
    validateEntries kvs path
  | _ :: _, path => .error (.typeError ⟨"% mapping keys must be strings", [.str path]⟩)

/-- The loop over a sequence. -/
def validateItems : List (Val F) → Str → ℕ → Except (JournalError F) Unit
  | [], _, _ => .ok ()
  | child :: children, path, index => do
    validatePlainData child (path ++ py "[" ++ natStr index ++ py "]")
    validateItems children path (index + 1)

end

/-- `_RESERVED_EVENT_KEYS`, sorted -/
def reservedEventKeys : List String := ["event_seq", "recorded_at_ns", "run_id"]

/-- `_event_data` -/
def eventData (value : Val F) : Except (JournalError F) (Dict F) :=
  match value with
  | .dict kvs => do
    let overlap := reservedEventKeys.filter fun k => hasStr k (kvs.map Prod.fst)
    raiseWhen (overlap ≠ []) (.valueError ⟨"event cannot supply reserved fields: %",
      [strList (overlap.map py)]⟩)
    validatePlainData value (py "event")
    .ok kvs
  | _ => .error (.typeError ⟨"event must be a mapping", []⟩)

end Plain

/-! ## The base class -/

structure JournalEvent (F : Type) where
  runId : Str
  eventSeq : ℕ
  recordedAtNs : ℕ
  event : Dict F

/-- `JournalEvent._record` -/
def JournalEvent.record (e : JournalEvent F) : List (String × Val F) :=
  [("version", .int 2), ("run_id", .str e.runId), ("event_seq", .int e.eventSeq),
    ("recorded_at_ns", .int e.recordedAtNs), ("event", .dict e.event)]

/-- `_JournalBase` over a store `σ`. -/
structure RunJournal (F σ : Type) where
  eventsByRun : Table Str (List (JournalEvent F)) := ∅
  recoveredRunIds : List Str := []
  closed : Bool := false
  store : σ

namespace RunJournal

variable {σ : Type}

/-- The events of a run, none for an unknown one. -/
def eventsOf (j : RunJournal F σ) (runId : Str) : List (JournalEvent F) :=
  (j.eventsByRun.get runId).getD []

section Append

variable [PyFloat F] [PyText F]

/-- `append` up to the item it is about to persist. -/
def newItem (j : RunJournal F σ) (runId event : Val F) (timeNs : ℕ) :
    Except (JournalError F) (JournalEvent F) := do
  let owner ← validateRunId runId
  let safeEvent ← eventData event
  raiseWhen (j.closed = true) (.valueError ⟨"journal is closed", []⟩)
  raiseWhen (owner ∈ j.recoveredRunIds) (.readOnly
    ⟨"run % was recovered after restart and cannot be resumed", [.str owner]⟩)
  .ok ⟨owner, (j.eventsOf owner).length + 1, timeNs, safeEvent⟩

/-- `append`, with the store's `_persist_record`.  `setdefault` leaves an empty list for a new run
when persisting raises. -/
def append (persist : σ → JournalEvent F → σ × Except (JournalError F) Unit) (j : RunJournal F σ)
    (runId event : Val F) (timeNs : ℕ) : RunJournal F σ × Except (JournalError F) (JournalEvent F) :=
  match j.newItem runId event timeNs with
  | .error e => (j, .error e)
  | .ok item =>
    let events := j.eventsOf item.runId
    match persist j.store item with
    | (store, .error e) =>
      ({ j with store, eventsByRun := j.eventsByRun.insert item.runId events }, .error e)
    | (store, .ok ()) =>
      ({ j with store, eventsByRun := j.eventsByRun.insert item.runId (events ++ [item]) },
        .ok item)

end Append

/-- The check of `after_event_seq`; a `bool` is refused too. -/
def afterSeq : Val F → Except (JournalError F) ℕ
  | .int n => if n < 0 then .error (.valueError ⟨"after_event_seq must be non-negative", []⟩)
    else .ok n.toNat
  | _ => .error (.typeError ⟨"after_event_seq must be an integer", []⟩)

def replay (j : RunJournal F σ) (runId afterEventSeq : Val F) :
    Except (JournalError F) (List (JournalEvent F)) := do
  let owner ← validateRunId runId
  let seq ← afterSeq afterEventSeq
  .ok ((j.eventsOf owner).filter fun e => seq < e.eventSeq)

def latest (j : RunJournal F σ) (runId : Val F) :
    Except (JournalError F) (Option (JournalEvent F)) := do
  let owner ← validateRunId runId
  .ok (j.eventsOf owner).getLast?

def runIds (j : RunJournal F σ) : List Str := sortedSet j.eventsByRun.keys

def close (j : RunJournal F σ) : RunJournal F σ := { j with closed := true }

end RunJournal

/-- `InMemoryRunJournal` -/
abbrev InMemoryRunJournal (F : Type) := RunJournal F Unit

/-- It persists nothing. -/
def persistNothing (_ : Unit) (_ : JournalEvent F) : Unit × Except (JournalError F) Unit :=
  ((), .ok ())

/-! ## Frames -/

/-- `_MAX_FRAME_BYTES` -/
def maxFrameBytes : ℕ := 16 * 1024 * 1024

def magic : Bytes := [82, 82, 74, 50]

def header : Val F :=
  dictOf [("format", .str (py "remote-robot-run-journal")), ("version", .int 2)]

section File

variable [Cbor F] [Sha256]

/-- `_frame` -/
def frame (value : Val F) : Except (JournalError F) Bytes :=
  match Cbor.dumps value with
  | .error e => .error (.encoding e)
  | .ok payload =>
    if payload.isEmpty || maxFrameBytes < payload.length then
      .error (.valueError ⟨"journal record is too large", []⟩)
    else .ok (Codec.beBytes 4 payload.length ++ Sha256.digest payload ++ payload)

def corrupt {α : Type} (text : String) (args : List (Val F)) : Except (JournalError F) α :=
  .error (.corruption ⟨text, args⟩)

/-- The checks of a complete payload. -/
def decodePayload (location : Str) (checksum payload : Bytes) : Except (JournalError F) (Dict F) :=
  if Sha256.digest payload ≠ checksum then corrupt "frame checksum mismatch at %" [.str location]
  else match (Cbor.loads payload : Except Exc (Val F)) with
    | .error _ => corrupt "invalid CBOR at %" [.str location]
    | .ok (.dict value) => match Cbor.dumps (Val.dict value) with
      | .error e =>
        if e = .typeError ∨ e.isValueError = true then corrupt "unsupported CBOR at %" [.str location]
        else .error (.encoding e)
      | .ok canonical =>
        if canonical ≠ payload then corrupt "non-canonical CBOR at %" [.str location] else .ok value
    | .ok _ => corrupt "journal frame is not a map at %" [.str location]

/-- `_decode_frame`: the next frame and what is left, `none` at the end of the file. -/
def decodeFrame (location : Str) (file : Bytes) : Except (JournalError F) (Option (Dict F × Bytes)) :=
  if file.isEmpty then .ok none
  else match Codec.readBe 4 0 file with
    | none => corrupt "truncated frame length at %" [.str location]
    | some (size, rest) =>
      if size = 0 ∨ maxFrameBytes < size then
        corrupt "invalid frame length % at %" [.int size, .str location]
      else if rest.length < 32 then corrupt "truncated frame checksum at %" [.str location]
      else if (rest.drop 32).length < size then
        corrupt "truncated frame payload at %" [.str location]
      else (decodePayload location (rest.take 32) ((rest.drop 32).take size)).map fun value =>
        some (value, (rest.drop 32).drop size)

variable [PyFloat F] [PyText F]

def recordFields : List String := ["version", "run_id", "event_seq", "recorded_at_ns", "event"]

/-- `except … as exc: raise JournalCorruptionError(text) from exc` -/
def asCorruption {α : Type} (text : String) (x : Except (JournalError F) α) :
    Except (JournalError F) α :=
  match x with
  | .error e => if e.isDataError then corrupt text [] else .error e
  | .ok a => .ok a

/-- A non-negative `int` that is no `bool`. -/
def asNat : Val F → Option ℕ
  | .int n => if n < 0 then none else some n.toNat
  | _ => none

/-- `_event_from_record`; the caller stores the sequence number. -/
def eventFromRecord (record : Dict F) (expectedSequences : Table Str ℕ) :
    Except (JournalError F) (JournalEvent F) := do
  raiseWhen (¬(recordFields.all (fun k => hasStr k (record.map Prod.fst)) = true ∧
      record.all (fun p => recordFields.any fun k => Key.eq (.str (py k)) p.1) = true ∧
      Val.eq (field "version" record) (.int 2) = true))
    (.corruption ⟨"invalid event record fields or version", []⟩)
  let owner ← asCorruption "invalid event run id" (validateRunId (field "run_id" record))
  let expected := (expectedSequences.get owner).getD 0 + 1
  raiseWhen (asNat (field "event_seq" record) ≠ some expected)
    (.corruption ⟨"event sequence discontinuity for run %", [.str owner]⟩)
  match asNat (field "recorded_at_ns" record) with
  | none => corrupt "invalid event timestamp" []
  | some timestamp => do
    let event ← asCorruption "invalid or secret-bearing event data" (eventData (field "event" record))
    .ok ⟨owner, expected, timestamp, event⟩

/-- The loop of `_load`. -/
def loadFrames : ℕ → ℕ → Bytes → Table Str ℕ → Table Str (List (JournalEvent F)) →
    Except (JournalError F) (Table Str (List (JournalEvent F)))
  | 0, _, _, _, _ => corrupt "out of fuel" []
  | n + 1, index, file, expected, events => do
    match ← decodeFrame (py "event frame " ++ natStr index) file with
    | none => .ok events
    | some (record, rest) => do
      let item ← eventFromRecord record expected
      loadFrames n (index + 1) rest (expected.insert item.runId item.eventSeq)
        (events.insert item.runId ((events.get item.runId).getD [] ++ [item]))

/-- `_load`.  A frame has at least one byte, so the length of the file bounds the loop. -/
def load (file : Bytes) : Except (JournalError F) (Table Str (List (JournalEvent F))) :=
  if file.take 4 ≠ magic then corrupt "invalid or truncated journal magic" []
  else do
    match ← decodeFrame (py "header") (file.drop 4) with
    | none => corrupt "invalid journal header" []
    | some (value, rest) =>
      if Val.eq (.dict value) header then loadFrames (rest.length + 1) 1 rest ∅ ∅
      else corrupt "invalid journal header" []

/-! ## The file store -/

structure FileStore where
  file : Bytes
  fsync : Bool := false

abbrev FileRunJournal (F : Type) := RunJournal F FileStore

/-- `FileRunJournal.__init__`, for the bytes of the file at the path, if there is one. -/
def openJournal (path : Option Bytes) (fsync : Bool) : Except (JournalError F) (FileRunJournal F) :=
  match path with
  | some file => (load file).map fun events =>
    { eventsByRun := events, recoveredRunIds := events.keys, store := ⟨file, fsync⟩ }
  | none => (frame (header : Val F)).map fun bytes => { store := ⟨magic ++ bytes, fsync⟩ }

/-- `_persist_record`; `fsyncFails` says that `os.fsync` raises. -/
def persistRecord (fsyncFails : Bool) (s : FileStore) (item : JournalEvent F) :
    FileStore × Except (JournalError F) Unit :=
  match frame (dictOf item.record) with
  | .error e => (s, .error e)
  | .ok bytes =>
    ({ s with file := s.file ++ bytes }, if s.fsync && fsyncFails then .error .osError else .ok ())

end File

end RemoteRobot
