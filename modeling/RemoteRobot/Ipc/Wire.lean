import RemoteRobot.Ipc.Frame

/-!
# Envelopes of the worker protocol

`validate_wire_message` of `ipc.py`: a decoded message is a hello, a request, a response or an
event.  The function returns the message it was given; here it returns the fields its callers read.
-/

namespace RemoteRobot.Ipc

open Py Except

variable {F : Type}

/-- `PROTOCOL_NAME` -/
def protocolName : Str := py "remote-robot-worker"

/-- `PROTOCOL_VERSION` -/
def protocolVersion : ℤ := 1

/-- The code and the message of an error record. -/
structure ErrorRecord where
  code : Str
  message : Str
  deriving DecidableEq

inductive WireMessage (F : Type) where
  | hello (adapter : Str) (capabilities : List Str)
  | request (requestId : ℕ) (method : Str) (params : Dict F)
  | response (requestId : ℕ) (outcome : Except ErrorRecord (Dict F))
  | event (event : Dict F)

/-- `IPCSchemaError(text)` -/
def schemaError (text : String) (args : List (Val F) := []) : IpcError F := .schema ⟨text, args⟩

/-! ## Envelopes that are sent -/

def requestEnvelope (requestId : ℕ) (method : Str) (params : Dict F) : Val F :=
  dictOf [("kind", .str (py "request")), ("version", .int protocolVersion),
    ("request_id", .int requestId), ("method", .str method), ("params", .dict params)]

def eventEnvelope (event : Dict F) : Val F :=
  dictOf [("kind", .str (py "event")), ("version", .int protocolVersion), ("event", .dict event)]

def resultEnvelope (requestId : ℕ) (result : Dict F) : Val F :=
  dictOf [("kind", .str (py "response")), ("version", .int protocolVersion),
    ("request_id", .int requestId), ("ok", .bool true), ("result", .dict result)]

def errorEnvelope (requestId : ℕ) (error : ErrorRecord) : Val F :=
  dictOf [("kind", .str (py "response")), ("version", .int protocolVersion),
    ("request_id", .int requestId), ("ok", .bool false),
    ("error", dictOf [("code", .str error.code), ("message", .str error.message)])]

def responseEnvelope (requestId : ℕ) : Except ErrorRecord (Dict F) → Val F
  | .ok result => resultEnvelope requestId result
  | .error e => errorEnvelope requestId e

def helloEnvelope (adapter : Str) (capabilities : List Str) : Val F :=
  dictOf [("kind", .str (py "hello")), ("protocol", .str protocolName),
    ("version", .int protocolVersion), ("adapter", .str adapter),
    ("capabilities", strList capabilities)]

section Validate

variable [PyFloat F]

/-! ## Validation -/

/-- `_expect_exact_keys` without optional keys -/
def expectExactKeys (message : Dict F) (required : List String) : Except (IpcError F) Unit := do
  let keys := message.map Prod.fst
  let missing := required.filter fun k => !hasStr k keys
  let extra := keys.filter fun k => !required.any fun r => Key.eq (.str (py r)) k
  raiseWhen (missing ≠ [])
    (schemaError "message is missing fields: %" [strList (sortedSet (missing.map py))])
  raiseWhen (extra.isEmpty = false)
    (schemaError "message has unknown fields: %" [.list (extra.map Key.toVal)])

/-- `_expect_int` -/
def expectInt (value : Val F) (fieldName : String) (minimum : ℤ) : Except (IpcError F) ℤ :=
  match value with
  | .int n => if n < minimum then
      .error (schemaError "% must be an integer >= %" [.str (py fieldName), .int minimum])
    else .ok n
  | _ => .error (schemaError "% must be an integer >= %" [.str (py fieldName), .int minimum])

def expectVersion (message : Dict F) : Except (IpcError F) Unit := do
  let version ← expectInt (field "version" message) "version" 1
  raiseWhen (version ≠ protocolVersion) (schemaError "unsupported worker protocol version")

def validateHello (message : Dict F) : Except (IpcError F) (WireMessage F) := do
  expectExactKeys message ["kind", "protocol", "version", "adapter", "capabilities"]
  raiseWhen (Val.eq (field "protocol" message) (.str protocolName) = false)
    (schemaError "unsupported worker protocol name")
  expectVersion message
  match field "adapter" message with
  | .str adapter =>
    raiseWhen (adapter = []) (schemaError "adapter must be a non-empty string")
    match field "capabilities" message with
    | .list items => match allStr items with
      | some capabilities => .ok (.hello adapter capabilities)
      | none => .error (schemaError "capabilities must be a list of strings")
    | _ => .error (schemaError "capabilities must be a list of strings")
  | _ => .error (schemaError "adapter must be a non-empty string")

def validateRequest (message : Dict F) : Except (IpcError F) (WireMessage F) := do
  expectExactKeys message ["kind", "version", "request_id", "method", "params"]
  let requestId ← expectInt (field "request_id" message) "request_id" 1
  match field "method" message with
  | .str method =>
    raiseWhen (method = []) (schemaError "method must be a non-empty string")
    match field "params" message with
    | .dict params => .ok (.request requestId.toNat method params)
    | _ => .error (schemaError "params must be a mapping")
  | _ => .error (schemaError "method must be a non-empty string")

/-- The error of a response with `ok` false. -/
def validateError (value : Val F) : Except (IpcError F) ErrorRecord :=
  match value with
  | .dict record =>
    let keys := record.map Prod.fst
    if hasStr "code" keys && hasStr "message" keys && record.length == 2 then
      match field "code" record, field "message" record with
      | .str code, .str message => .ok ⟨code, message⟩
      | _, _ => .error (schemaError "error code and message must be strings")
    else .error (schemaError "error must contain exactly code and message")
  | _ => .error (schemaError "error must contain exactly code and message")

def validateResponse (message : Dict F) : Except (IpcError F) (WireMessage F) :=
  match field "ok" message with
  | .bool true => do
    expectExactKeys message ["kind", "version", "request_id", "ok", "result"]
    match field "result" message with
    | .dict result => do
      let requestId ← expectInt (field "request_id" message) "request_id" 1
      .ok (.response requestId.toNat (.ok result))
    | _ => .error (schemaError "successful result must be a mapping")
  | .bool false => do
    expectExactKeys message ["kind", "version", "request_id", "ok", "error"]
      let record ← validateError (field "error" message)
    let requestId ← expectInt (field "request_id" message) "request_id" 1
    .ok (.response requestId.toNat (.error record))
  | _ => .error (schemaError "ok must be a boolean")

def validateEvent (message : Dict F) : Except (IpcError F) (WireMessage F) := do
  expectExactKeys message ["kind", "version", "event"]
  match field "event" message with
  | .dict event => .ok (.event event)
  | _ => .error (schemaError "event must be a mapping")

/-- `validate_wire_message` -/
def validateWireMessage (message : Dict F) : Except (IpcError F) (WireMessage F) := do
  validateValue (.dict message) (py "$") 0
  match field "kind" message with
  | .str kind =>
    if kind = py "hello" then validateHello message
    else do
      expectVersion message
      if kind = py "request" then validateRequest message
      else if kind = py "response" then validateResponse message
      else if kind = py "event" then validateEvent message
      else .error (schemaError "unknown wire message kind: %" [.str kind])
  | _ => .error (schemaError "kind must be a string")

end Validate

/-! ## What an envelope reads back as -/

section Reads

variable [PyFloat F]

/-- A received envelope has exactly the keys it was sent with, and the values read back. -/
theorem reads_envelope {kvs : List (String × Val F)} {raw : Dict F}
    (h : (dictOf kvs).Reads (.dict raw)) (hnd : (kvs.map Prod.fst).Nodup) :
    expectExactKeys raw (kvs.map Prod.fst) = .ok () ∧
      ∀ k v, lookup (py k) (entries kvs) = some v → v.Reads (field k raw) := by
  obtain ⟨b, he, -, hperm, hfields⟩ := h.fields (nodup_entries hnd)
  obtain rfl := Val.dict.inj he
  have hkeys : ∀ k : Key F, k ∈ raw.map Prod.fst ↔ ∃ s ∈ kvs.map Prod.fst, k = .str (py s) := by
    intro k
    rw [hperm.mem_iff]
    simp only [entries, List.map_map, List.mem_map, Function.comp_apply]
    constructor
    · rintro ⟨p, hp, rfl⟩
      exact ⟨p.1, ⟨p, hp, rfl⟩, rfl⟩
    · rintro ⟨_, ⟨p, hp, rfl⟩, rfl⟩
      exact ⟨p, hp, rfl⟩
  refine ⟨?_, fun k v hk => ?_⟩
  · have hmissing : (kvs.map Prod.fst).filter (fun k => !hasStr k (raw.map Prod.fst)) = [] := by
      refine List.filter_eq_nil_iff.2 fun k hk => ?_
      rw [Bool.not_eq_true', Bool.not_eq_false, hasStr_iff, hkeys]
      exact ⟨k, hk, rfl⟩
    have hextra : (raw.map Prod.fst).filter (fun k => !(kvs.map Prod.fst).any fun r =>
        Key.eq (.str (py r)) k) = [] := by
      refine List.filter_eq_nil_iff.2 fun k hk => ?_
      obtain ⟨s, hs, rfl⟩ := (hkeys k).1 hk
      rw [Bool.not_eq_true', Bool.not_eq_false, List.any_eq_true]
      exact ⟨s, hs, Key.eq_str_iff.2 rfl⟩
    unfold expectExactKeys
    simp only [hmissing, hextra]
    rfl
  · obtain ⟨u, hu, hr⟩ := (hfields (py k)).1 v hk
    rw [field, hu]
    exact hr

omit [PyFloat F] in
theorem expectInt_eq {n minimum : ℤ} {fieldName : String} (h : minimum ≤ n) :
    expectInt (.int n : Val F) fieldName minimum = .ok n := by
  unfold expectInt
  simp only [if_neg (not_lt.2 h)]

variable [Cbor F] [PlainCbor F] [LawfulFloat F] {L : ℤ}

/-- A frame decodes to what its message reads back as, which is valid. -/
theorem reads_frame {m : Val F} {frame : Bytes} (hm : m.wellFormed = true)
    (h : encodeFrame m L = .ok frame) : ∃ raw, decodeFrame frame L = .ok raw ∧
      m.Reads (.dict raw) ∧ validateValue (.dict raw) (py "$") 0 = .ok () := by
  obtain ⟨hL, payload, hp, hne, hle, rfl⟩ := encodeFrame_eq_ok.1 h
  obtain ⟨raw, hraw, hr, -⟩ := decodePayload_of_canonicalPayload hm hp hne hle
  obtain ⟨-, -, -, hs, -⟩ := decodePayload_eq_ok.1 hraw
  refine ⟨raw, decodeFrame_eq_ok.2 ⟨payload, rfl, by omega, hraw⟩, hr, ?_⟩
  rw [validateValue_eq_ok]
  exact ⟨hs.1, by simpa using hs.2⟩

omit [PlainCbor F] [LawfulFloat F] in
theorem sendable_of_encodeFrame {m : Val F} {frame : Bytes} (h : encodeFrame m L = .ok frame) :
    Sendable m := by
  obtain ⟨-, payload, hp, -⟩ := encodeFrame_eq_ok.1 h
  exact (canonicalPayload_eq_ok.1 hp).2.1

omit [Cbor F] [PlainCbor F] [LawfulFloat F] in
theorem Sendable.field {kvs : List (String × Val F)} (h : Sendable (dictOf kvs)) {p : String × Val F}
    (hp : p ∈ kvs) : Sendable p.2 := by
  have hmem : (Key.str (py p.1), p.2) ∈ entries kvs := List.mem_map_of_mem hp
  have hdepth := depthEntries_le.1 h.2 _ hmem
  exact ⟨(admissibleEntries_iff.1 h.1 _ hmem).2, by simp only at hdepth; omega⟩

omit [Cbor F] [PlainCbor F] in
/-- What was sent equals what is read. -/
theorem Sendable.eq_of_reads {v w : Val F} (h : Sendable v) (hv : v.wellFormed = true)
    (hr : v.Reads w) : Val.eq v w = true :=
  hr.eq (h.1.plain hv)

/-- The outcome of a response after the transport. -/
def SameOutcome : Except ErrorRecord (Dict F) → Except ErrorRecord (Dict F) → Prop
  | .ok result, .ok result' => Val.eq (.dict result) (.dict result') = true
  | .error e, .error e' => e = e'
  | _, _ => False

def wellFormedOutcome : Except ErrorRecord (Dict F) → Bool
  | .ok result => (Val.dict result).wellFormed
  | .error _ => true

omit [PyFloat F] [Cbor F] [PlainCbor F] [LawfulFloat F] in
theorem reads_dict {a : Dict F} {w : Val F} (h : (Val.dict a).Reads w) : ∃ b, w = .dict b := by
  obtain ⟨b, _, rfl, -⟩ := h
  exact ⟨b, rfl⟩

omit [PyFloat F] [Cbor F] [PlainCbor F] [LawfulFloat F] in
theorem expectVersion_eq {raw : Dict F} (h : (Val.int protocolVersion : Val F).Reads (field "version" raw)) :
    expectVersion raw = .ok () := by
  unfold expectVersion
  rw [show field "version" raw = .int protocolVersion from h, expectInt_eq (by decide)]
  rfl

theorem read_event {event : Dict F} {frame : Bytes} (hevent : (Val.dict event).wellFormed = true)
    (h : encodeFrame (eventEnvelope event) L = .ok frame) :
    ∃ raw event', decodeFrame frame L = .ok raw ∧ validateWireMessage raw = .ok (.event event') ∧
      Val.eq (.dict event) (.dict event') = true := by
  have hnd : ["kind", "version", "event"].Nodup := by decide
  have hm : (eventEnvelope event).wellFormed = true :=
    wellFormed_dictOf hnd (by simpa [Val.wellFormed] using hevent)
  obtain ⟨raw, hraw, hr, hvalid⟩ := reads_frame hm h
  obtain ⟨hkeys, hfields⟩ := reads_envelope hr hnd
  have hkeys : expectExactKeys raw ["kind", "version", "event"] = .ok () := hkeys
  have hkind : field "kind" raw = .str (py "event") := hfields "kind" _ rfl
  obtain ⟨event', hevent'⟩ := reads_dict (hfields "event" _ rfl)
  have hsame : (Val.dict event).Reads (.dict event') := hevent' ▸ hfields "event" _ rfl
  have hsend : Sendable (Val.dict event) :=
    (sendable_of_encodeFrame h).field (p := ("event", .dict event)) (by simp)
  refine ⟨raw, event', hraw, ?_, hsend.eq_of_reads hevent hsame⟩
  unfold validateWireMessage validateEvent
  rw [hvalid, hkeys, hkind, expectVersion_eq (hfields "version" _ rfl), hevent']
  rfl

theorem read_request {requestId : ℕ} {method : Str} {params : Dict F} {frame : Bytes}
    (hid : 0 < requestId) (hmethod : method ≠ []) (hparams : (Val.dict params).wellFormed = true)
    (h : encodeFrame (requestEnvelope requestId method params) L = .ok frame) :
    ∃ raw params', decodeFrame frame L = .ok raw ∧
      validateWireMessage raw = .ok (.request requestId method params') ∧
      (Val.dict params).Reads (.dict params') := by
  have hnd : ["kind", "version", "request_id", "method", "params"].Nodup := by decide
  have hm : (requestEnvelope requestId method params).wellFormed = true :=
    wellFormed_dictOf hnd (by simpa [Val.wellFormed] using hparams)
  obtain ⟨raw, hraw, hr, hvalid⟩ := reads_frame hm h
  obtain ⟨hkeys, hfields⟩ := reads_envelope hr hnd
  have hkeys : expectExactKeys raw ["kind", "version", "request_id", "method", "params"] = .ok () :=
    hkeys
  have hkind : field "kind" raw = .str (py "request") := hfields "kind" _ rfl
  have hnumber : field "request_id" raw = .int requestId := hfields "request_id" _ rfl
  have hname : field "method" raw = .str method := hfields "method" _ rfl
  obtain ⟨params', hparams'⟩ := reads_dict (hfields "params" _ rfl)
  refine ⟨raw, params', hraw, ?_, hparams' ▸ hfields "params" _ rfl⟩
  unfold validateWireMessage validateRequest
  rw [hvalid, hkeys, hkind, expectVersion_eq (hfields "version" _ rfl), hnumber, hname, hparams',
    expectInt_eq (by omega)]
  simp only [raiseWhen, if_neg hmethod]
  rfl

theorem read_response {requestId : ℕ} {outcome : Except ErrorRecord (Dict F)} {frame : Bytes}
    (hid : 0 < requestId) (houtcome : wellFormedOutcome outcome = true)
    (h : encodeFrame (responseEnvelope requestId outcome) L = .ok frame) :
    ∃ raw outcome', decodeFrame frame L = .ok raw ∧
      validateWireMessage raw = .ok (.response requestId outcome') ∧ SameOutcome outcome outcome' := by
  cases outcome with
  | ok result =>
    have hnd : ["kind", "version", "request_id", "ok", "result"].Nodup := by decide
    have hm : (resultEnvelope requestId result).wellFormed = true :=
      wellFormed_dictOf hnd (by simpa [Val.wellFormed, wellFormedOutcome] using houtcome)
    obtain ⟨raw, hraw, hr, hvalid⟩ := reads_frame hm h
    obtain ⟨hkeys, hfields⟩ := reads_envelope hr hnd
    have hkeys : expectExactKeys raw ["kind", "version", "request_id", "ok", "result"] = .ok () :=
      hkeys
    have hkind : field "kind" raw = .str (py "response") := hfields "kind" _ rfl
    have hnumber : field "request_id" raw = .int requestId := hfields "request_id" _ rfl
    have hok : field "ok" raw = .bool true := hfields "ok" _ rfl
    obtain ⟨result', hresult'⟩ := reads_dict (hfields "result" _ rfl)
    have hsame : (Val.dict result).Reads (.dict result') := hresult' ▸ hfields "result" _ rfl
    have hsend : Sendable (Val.dict result) :=
      (sendable_of_encodeFrame h).field (p := ("result", .dict result)) (by simp)
    refine ⟨raw, .ok result', hraw, ?_, hsend.eq_of_reads houtcome hsame⟩
    unfold validateWireMessage validateResponse
    rw [hvalid, hkeys, hkind, expectVersion_eq (hfields "version" _ rfl), hnumber, hok, hresult',
      expectInt_eq (by omega)]
    rfl
  | error record =>
    have hnd : ["kind", "version", "request_id", "ok", "error"].Nodup := by decide
    have hnd' : ["code", "message"].Nodup := by decide
    have hm : (errorEnvelope requestId record : Val F).wellFormed = true := by
      refine wellFormed_dictOf hnd ?_
      have hrecord : (dictOf [("code", .str record.code),
          ("message", .str record.message)] : Val F).wellFormed = true :=
        wellFormed_dictOf hnd' (by simp [Val.wellFormed])
      simpa [Val.wellFormed] using hrecord
    obtain ⟨raw, hraw, hr, hvalid⟩ := reads_frame hm h
    obtain ⟨hkeys, hfields⟩ := reads_envelope hr hnd
    have hkeys : expectExactKeys raw ["kind", "version", "request_id", "ok", "error"] = .ok () :=
      hkeys
    have hkind : field "kind" raw = .str (py "response") := hfields "kind" _ rfl
    have hnumber : field "request_id" raw = .int requestId := hfields "request_id" _ rfl
    have hok : field "ok" raw = .bool false := hfields "ok" _ rfl
    have herror : validateError (field "error" raw) = (.ok record : Except (IpcError F) _) := by
      obtain ⟨e, he⟩ := reads_dict (hfields "error" _ rfl)
      have hr' : (dictOf [("code", .str record.code),
          ("message", .str record.message)] : Val F).Reads (.dict e) := he ▸ hfields "error" _ rfl
      obtain ⟨b, he', hlen, hperm, -⟩ := Val.Reads.fields hr' (nodup_entries hnd')
      obtain rfl := Val.dict.inj he'
      obtain ⟨-, hparts⟩ := reads_envelope hr' hnd'
      have hcode : field "code" e = .str record.code := hparts "code" _ rfl
      have hmessage : field "message" e = .str record.message := hparts "message" _ rfl
      have hhas : ∀ s ∈ ["code", "message"], hasStr s (e.map Prod.fst) = true := by
        intro s hs
        rw [hasStr_iff, hperm.mem_iff]
        simp only [List.mem_cons, List.not_mem_nil, or_false] at hs
        obtain rfl | rfl := hs <;> simp
      rw [he]
      unfold validateError
      simp only [hhas "code" (by simp), hhas "message" (by simp), hlen, hcode, hmessage]
      rfl
    refine ⟨raw, .error record, hraw, ?_, rfl⟩
    unfold validateWireMessage validateResponse
    rw [hvalid, hkeys, hkind, expectVersion_eq (hfields "version" _ rfl), hnumber, hok, herror,
      expectInt_eq (by omega)]
    rfl

end Reads

end RemoteRobot.Ipc
