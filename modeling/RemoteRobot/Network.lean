import RemoteRobot.Registry
import RemoteRobot.Lib.Except

/-!
# The management endpoint

`network.py`: one connection of a management client, from its hello to the end of the session.
The peer is the frames it sends and the number of messages that reach it before the connection is
gone; what the client can see is the `Transcript`.

`ManagementEndpoint.refusals_alike_iff` is about two endpoints whose registries and environments may
differ in any way: a hello that authenticates at neither gets one and the same refusal from both,
unless one of them holds a credential to compare and `hmac.compare_digest` raises on the text.
-/

namespace RemoteRobot

open Py Except

variable {F : Type}

/-! ## Messages -/

structure NetworkError (F : Type) where
  code : String
  message : Message F

/-- What may leave a session step. -/
inductive SessionError (F : Type) where
  | network (e : NetworkError F)
  | registry (m : Message F)
  | builtin (e : Exc)
  | connectionClosed

def networkError (code text : String) (args : List (Val F) := []) : SessionError F :=
  .network ⟨code, ⟨text, args⟩⟩

inductive Frame where
  | text (s : Str)
  | binary (b : Bytes)

/-- `json.loads` and the check for an object. -/
def decodeText [Json F] (s : Str) : Except (SessionError F) (Dict F) :=
  match (Json.loads s : Except JsonError (Val F)) with
  | .error (.decode msg) => .error (networkError "SCHEMA_INVALID" "invalid JSON: %" [.str msg])
  | .error (.other e) => .error (.builtin e)
  | .ok (.dict value) => .ok value
  | .ok _ => .error (networkError "SCHEMA_INVALID" "message must be an object")

/-- `_decode` -/
def decodeMessage [Json F] : Frame → Except (SessionError F) (Dict F)
  | .text s => decodeText s
  | .binary b => match Json.decodeUtf8 F b with
    | none => .error (networkError "SCHEMA_INVALID" "management binary frame isn't UTF-8")
    | some s => decodeText s

/-- `_exact` without optional fields -/
def exactFields [PyFloat F] (value : Dict F) (required : List String) :
    Except (SessionError F) Unit :=
  let keys := value.map Prod.fst
  let missing := required.filter fun k => !hasStr k keys
  let extra := keys.filter fun k => !required.any fun r => Key.eq (.str (py r)) k
  if missing = [] ∧ extra.isEmpty = true then .ok ()
  else match sortedKeys extra with
    | .error e => .error (.builtin e)
    | .ok extra => .error (networkError "SCHEMA_INVALID"
        "message fields mismatch; missing=%, unexpected=%"
        [strList (sortedSet (missing.map py)), .list (extra.map Key.toVal)])

/-- A message to the client. -/
inductive Response (F : Type) where
  | object (fields : List (String × Val F))
  /-- the record of `_error`: its type, request id, code and message -/
  | failure (type : String) (requestId : Val F) (code : String) (message : Message F)

/-- `_response` -/
def response (requestId : Val F) (result : List (String × Val F)) : Response F :=
  .object [("type", .str (py "response")), ("request_id", requestId), ("ok", .bool true),
    ("result", dictOf result)]

/-- `_error` -/
def errorReply (requestId : Val F) (code : String) (message : Message F) : Response F :=
  match requestId with
  | .none => .failure "error" .none code message
  | requestId => .failure "response" requestId code message

/-! ## The endpoint -/

/-- `s.isascii()` -/
def isAscii (s : Str) : Bool := s.all fun c => c < 128

/-- `hmac.compare_digest` of two strings -/
def compareDigest (a b : Str) : Except Exc Bool :=
  if isAscii a && isAscii b then .ok (a == b) else .error .typeError

structure ManagementEndpoint (F : Type) where
  registry : Registry F
  /-- `os.environ` -/
  environ : Str → Option Str

def authFailed : SessionError F :=
  networkError "AUTH_FAILED" "unknown identity or invalid credential"

/-- What the client sees of one connection: the messages, the arguments of `close`, and the
exception that leaves `handle`, upon which the library closes the connection its own way. -/
structure Transcript (F : Type) where
  sent : List (Response F) := []
  closed : Option (ℕ × String) := none
  raised : Option (SessionError F) := none

/-- The client: its first frame, if one comes within five seconds, the frames after it, and how
many messages can be sent to it before the connection is gone. -/
structure Peer where
  hello : Option Frame
  frames : List Frame := []
  sends : ℕ

namespace ManagementEndpoint

def authenticate (E : ManagementEndpoint F) (identityId suppliedToken : Str) :
    Except (SessionError F) Unit :=
  match (E.registry.identity identityId : Except (Error F) IdentitySpec) with
  | .error _ => .error authFailed
  | .ok identity =>
    let expected := (E.environ identity.credentialEnv).getD []
    if expected.length < 32 then .error authFailed
    else match compareDigest suppliedToken expected with
      | .error e => .error (.builtin e)
      | .ok same => if same then .ok () else .error authFailed

section Session

variable [Cbor F] [Sha256]

/-- `str(exc)` of a registry error; the others cannot happen here. -/
def registryError : Error F → SessionError F
  | .registry m => .registry m
  | .builtin e => .builtin e
  | _ => .builtin .valueError

def listRobots (E : ManagementEndpoint F) (identityId : Str) :
    Except (SessionError F) (List (String × Val F)) :=
  match E.registry.listRobots identityId with
  | .error e => .error (registryError e)
  | .ok robots => .ok [("robots", .list robots)]

def describeRobot (E : ManagementEndpoint F) (identityId : Str) (nodeId : Val F) :
    Except (SessionError F) (List (String × Val F)) :=
  match nodeId with
  | .str nodeId => match E.registry.describeFor nodeId identityId with
    | .error (.registry _) =>
      .error (networkError "NOT_FOUND" "robot isn't visible to this identity")
    | .error e => .error (registryError e)
    | .ok manifest => .ok [("manifest", manifest)]
  | _ => .error (networkError "SCHEMA_INVALID" "node_id must be a string")

variable [PyFloat F]

def dispatch (E : ManagementEndpoint F) (identityId method : Str) (params : Dict F) :
    Except (SessionError F) (List (String × Val F)) :=
  if method = py "list_robots" then do
    exactFields params []
    E.listRobots identityId
  else if method = py "describe_robot" then do
    exactFields params ["node_id"]
    E.describeRobot identityId (field "node_id" params)
  else if method = py "server_info" then do
    exactFields params []
    .ok [("protocol", .str (py "robot-stream.v2")), ("server_id", .str E.registry.serverId),
      ("capabilities", strList [py "registry-discovery/v1"]), ("execution_available", .bool false)]
  else .error (networkError "METHOD_NOT_FOUND" "unknown management method %" [.str method])

/-- A request envelope with its fields, once it has the right ones. -/
def serveRequest (E : ManagementEndpoint F) (identityId : Str) (request : Dict F) :
    Except (SessionError F) (Response F) :=
  match Val.eq (field "type" request) (.str (py "request")), field "request_id" request,
      field "method" request, field "params" request with
  | true, .int requestId, .str method, .dict params =>
    if requestId ≤ 0 then .error (networkError "SCHEMA_INVALID" "invalid request envelope")
    else (E.dispatch identityId method params).map (response (.int requestId))
  | _, _, _, _ => .error (networkError "SCHEMA_INVALID" "invalid request envelope")

/-- `except (NetworkError, RegistryError)` of the loop. -/
def refuse (requestId : Val F) : SessionError F → Except (SessionError F) (Response F)
  | .network e => .ok (errorReply requestId e.code
      ⟨e.code ++ ": " ++ e.message.text, e.message.args⟩)
  | .registry m => .ok (errorReply requestId "REGISTRY_ERROR" m)
  | e => .error e

variable [Json F]

/-- The answer to one frame of the session. -/
def answer (E : ManagementEndpoint F) (identityId : Str) (raw : Frame) :
    Except (SessionError F) (Response F) :=
  let envelope : Except (SessionError F) (Dict F) := do
    let request ← decodeMessage raw
    exactFields request ["type", "request_id", "method", "params"]
    .ok request
  match envelope with
  | .error e => refuse .none e
  | .ok request => match E.serveRequest identityId request with
    | .error e => refuse (field "request_id" request) e
    | .ok reply => .ok reply

/-- The loop over the frames; it ends when the connection is closed. -/
def serve (E : ManagementEndpoint F) (identityId : Str) (sends : ℕ) :
    List Frame → List (Response F) → List (Response F) × Option (SessionError F)
  | [], sent => (sent, none)
  | raw :: frames, sent => match E.answer identityId raw with
    | .error e => (sent, some e)
    | .ok reply =>
      if sent.length < sends then E.serve identityId sends frames (sent ++ [reply])
      else (sent, some .connectionClosed)

/-- The hello up to the welcome; returns the identity. -/
def negotiate (E : ManagementEndpoint F) (hello : Dict F) : Except (SessionError F) Str := do
  exactFields hello ["type", "protocol", "role", "identity_id", "token"]
  match field "identity_id" hello, field "token" hello with
  | .str identityId, .str token => do
    raiseWhen (¬(Val.eq (field "type" hello) (.str (py "hello")) = true ∧
        Val.eq (field "protocol" hello) (.str (py "robot-stream.v2")) = true ∧
        Val.eq (field "role" hello) (.str (py "management")) = true))
      (networkError "AUTH_FAILED" "management negotiation failed")
    E.authenticate identityId token
    .ok identityId
  | _, _ => .error (networkError "AUTH_FAILED" "management negotiation failed")

def welcome (E : ManagementEndpoint F) (identityId : Str) : Response F :=
  .object [("type", .str (py "welcome")), ("protocol", .str (py "robot-stream.v2")),
    ("role", .str (py "management")), ("server_id", .str E.registry.serverId),
    ("identity_id", .str identityId), ("capabilities", strList [py "registry-discovery/v1"]),
    ("execution_available", .bool false)]

/-- The handlers of `handle`, for an exception raised after the messages `sent`. -/
def finish (sends : ℕ) (sent : List (Response F)) : SessionError F → Transcript F
  | .network e =>
    if sent.length < sends then
      { sent := sent ++ [errorReply .none e.code e.message]
        closed := some (1008, "authentication failed") }
    else { sent, raised := some .connectionClosed }
  | .connectionClosed => { sent }
  | e => { sent, raised := some e }

def handle (E : ManagementEndpoint F) (peer : Peer) : Transcript F :=
  match peer.hello with
  | none => {}
  | some raw => match (decodeMessage raw).bind E.negotiate with
    | .error e => finish peer.sends [] e
    | .ok identityId =>
      if 0 < peer.sends then
        match E.serve identityId peer.sends peer.frames [E.welcome identityId] with
        | (sent, none) => { sent }
        | (sent, some e) => finish peer.sends sent e
      else {}

end Session

/-! ## Refusals -/

/-- The endpoint has this credential to compare a token of the identity with. -/
def Compares (E : ManagementEndpoint F) (identityId expected : Str) : Prop :=
  32 ≤ expected.length ∧ ∃ identity,
    (E.registry.identity identityId : Except (Error F) IdentitySpec) = .ok identity ∧
    (E.environ identity.credentialEnv).getD [] = expected

/-- No comparison of the token raises. -/
def Comparable (E : ManagementEndpoint F) (identityId token : Str) : Prop :=
  ∀ expected, E.Compares identityId expected → isAscii token = true ∧ isAscii expected = true

/-- Of the ways to fail, only the comparison of text that is not ASCII is not `AUTH_FAILED`. -/
theorem authenticate_cases (E : ManagementEndpoint F) (identityId token : Str) :
    E.authenticate identityId token = .ok () ∨
    (E.authenticate identityId token = .error authFailed ∧ E.Comparable identityId token) ∨
    (E.authenticate identityId token = .error (.builtin .typeError) ∧
      ¬E.Comparable identityId token) := by
  unfold authenticate
  rcases hid : (E.registry.identity identityId : Except (Error F) IdentitySpec) with e | identity
  · refine .inr (.inl ⟨rfl, ?_⟩)
    rintro expected ⟨-, identity, hid', -⟩
    rw [hid] at hid'
    cases hid'
  · simp only
    by_cases hlen : ((E.environ identity.credentialEnv).getD []).length < 32
    · rw [if_pos hlen]
      refine .inr (.inl ⟨rfl, ?_⟩)
      rintro expected ⟨hle, identity', hid', rfl⟩
      rw [hid] at hid'
      obtain rfl := Except.ok.inj hid'
      omega
    · rw [if_neg hlen]
      have hcmp : E.Compares identityId ((E.environ identity.credentialEnv).getD []) :=
        ⟨Nat.not_lt.1 hlen, identity, hid, rfl⟩
      unfold compareDigest
      by_cases hascii : (isAscii token && isAscii ((E.environ identity.credentialEnv).getD [])) = true
      · rw [if_pos hascii]
        rw [Bool.and_eq_true] at hascii
        have hcomp : E.Comparable identityId token := by
          rintro expected ⟨-, identity', hid', rfl⟩
          rw [hid] at hid'
          obtain rfl := Except.ok.inj hid'
          exact hascii
        by_cases hsame : (token == (E.environ identity.credentialEnv).getD []) = true
        · exact .inl (by simp only [hsame, if_true])
        · exact .inr (.inl ⟨by simp only [hsame]; rfl, hcomp⟩)
      · rw [if_neg hascii]
        refine .inr (.inr ⟨rfl, fun hcomp => hascii ?_⟩)
        rw [Bool.and_eq_true]
        exact hcomp _ hcmp

variable [Cbor F] [Sha256] [PyFloat F] [Json F]

/-- What a client that fails to authenticate is to see. -/
def refusal (peer : Peer) : Transcript F := finish peer.sends [] authFailed

/-- A management hello with its five fields, for this identity and with this token. -/
structure WellFormedHello (hello : Dict F) (identityId token : Str) : Prop where
  fields : exactFields hello ["type", "protocol", "role", "identity_id", "token"] = .ok ()
  type : Val.eq (field "type" hello) (.str (py "hello")) = true
  protocol : Val.eq (field "protocol" hello) (.str (py "robot-stream.v2")) = true
  role : Val.eq (field "role" hello) (.str (py "management")) = true
  identityId : field "identity_id" hello = .str identityId
  token : field "token" hello = .str token

variable {peer : Peer} {raw : Frame} {hello : Dict F} {identityId token : Str}

/-- The hello stands or falls with `authenticate`. -/
theorem handle_of_error (E : ManagementEndpoint F) (hpeer : peer.hello = some raw)
    (hdec : decodeMessage raw = .ok hello) (hwf : WellFormedHello hello identityId token)
    {e : SessionError F} (he : E.authenticate identityId token = .error e) :
    E.handle peer = finish peer.sends [] e := by
  have hneg : E.negotiate hello = .error e := by
    unfold negotiate
    rw [hwf.fields]
    simp only [bind, Except.bind, hwf.identityId, hwf.token]
    rw [raiseWhen, if_neg (not_not.2 ⟨hwf.type, hwf.protocol, hwf.role⟩)]
    simp only [he]
  unfold handle
  simp only [hpeer, hdec, Except.bind, hneg]

theorem handle_eq_refusal_iff (E : ManagementEndpoint F) (hpeer : peer.hello = some raw)
    (hdec : decodeMessage raw = .ok hello) (hwf : WellFormedHello hello identityId token)
    (hno : E.authenticate identityId token ≠ .ok ()) :
    E.handle peer = refusal peer ↔ E.Comparable identityId token := by
  obtain hok | ⟨he, hcomp⟩ | ⟨he, hcomp⟩ := E.authenticate_cases identityId token
  · exact absurd hok hno
  · exact iff_of_true (E.handle_of_error hpeer hdec hwf he) hcomp
  · refine iff_of_false ?_ hcomp
    rw [E.handle_of_error hpeer hdec hwf he]
    intro heq
    have hraised := congrArg Transcript.raised heq
    unfold refusal authFailed networkError finish at hraised
    by_cases hsend : 0 < peer.sends
    · simp [hsend] at hraised
    · simp [hsend] at hraised

/-- Two endpoints, whatever their registries and environments: a hello that authenticates at neither
is refused by both in the same way, with `AUTH_FAILED` and code 1008, if and only if neither has
to compare text that is not ASCII. -/
theorem refusals_alike_iff (E E' : ManagementEndpoint F) (hpeer : peer.hello = some raw)
    (hdec : decodeMessage raw = .ok hello) (hwf : WellFormedHello hello identityId token)
    (hno : E.authenticate identityId token ≠ .ok ())
    (hno' : E'.authenticate identityId token ≠ .ok ()) :
    (E.handle peer = refusal peer ∧ E'.handle peer = refusal peer) ↔
      E.Comparable identityId token ∧ E'.Comparable identityId token := by
  rw [E.handle_eq_refusal_iff hpeer hdec hwf hno, E'.handle_eq_refusal_iff hpeer hdec hwf hno']

end ManagementEndpoint

/-! ## A small endpoint -/

section Demo

local instance networkHash : Sha256 := lengthHash

def demoHello (token : Str) : Dict ℚ :=
  entries [("type", .str (py "hello")), ("protocol", .str (py "robot-stream.v2")),
    ("role", .str (py "management")), ("identity_id", .str (py "example_operator")),
    ("token", .str token)]

/-- The JSON text of the hello. -/
def demoHelloText (token : Str) : Str :=
  py "\x7b\"type\":\"hello\",\"protocol\":\"robot-stream.v2\",\"role\":\"management\"," ++
    py "\"identity_id\":\"example_operator\",\"token\":\"" ++ token ++ py "\"\x7d"

/-- A token of plain letters, and one with an accent. -/
def demoTokens : List Str := [py "wrong", [233]]

/-- `json.loads` on the two hellos. -/
local instance demoJson : Json ℚ where
  decodeUtf8 _ := none
  loads s := match demoTokens.find? fun token => demoHelloText token = s with
    | some token => .ok (.dict (demoHello token))
    | none => .error (.decode (py "Expecting value"))

/-- The demo operator with a credential of 32 characters. -/
def demoEndpoint : ManagementEndpoint ℚ :=
  ⟨demoRegistry, fun _ => some (List.replicate 32 97)⟩

/-- The same endpoint without the operator. -/
def strangerEndpoint : ManagementEndpoint ℚ :=
  { demoEndpoint with registry := { demoRegistry with identities := [] } }

def demoPeer (token : Str) : Peer := { hello := some (.text (demoHelloText token)), sends := 1 }

theorem demoHello_wellFormed (token : Str) :
    ManagementEndpoint.WellFormedHello (demoHello token) (py "example_operator") token where
  fields := rfl
  type := by simp [field, demoHello, Val.eq]
  protocol := by simp [field, demoHello, Val.eq]
  role := by simp [field, demoHello, Val.eq]
  identityId := by simp [field, demoHello]
  token := by simp [field, demoHello]

namespace ManagementEndpoint

theorem refusals_alike_demo :
    demoEndpoint.handle (demoPeer (py "wrong")) = refusal (demoPeer (py "wrong")) ∧
    strangerEndpoint.handle (demoPeer (py "wrong")) = refusal (demoPeer (py "wrong")) := by
  have hdec : (decodeMessage (.text (demoHelloText (py "wrong"))) :
      Except (SessionError ℚ) (Dict ℚ)) = .ok (demoHello (py "wrong")) := rfl
  refine (refusals_alike_iff demoEndpoint strangerEndpoint rfl hdec
    (demoHello_wellFormed _) ?_ ?_).2 ⟨?_, ?_⟩
  · intro h
    cases h
  · intro h
    cases h
  · rintro expected ⟨-, identity, hid, rfl⟩
    exact ⟨by decide, rfl⟩
  · rintro expected ⟨-, identity, hid, -⟩
    cases hid

/-- The two endpoints differ in the operator only, and the token authenticates at neither.  Where
the operator exists the comparison raises, and nothing is sent. -/
theorem refusals_alike_counterexample :
    demoEndpoint.authenticate (py "example_operator") [233] ≠ .ok () ∧
    strangerEndpoint.authenticate (py "example_operator") [233] ≠ .ok () ∧
    demoEndpoint.handle (demoPeer [233]) = { raised := some (.builtin .typeError) } ∧
    strangerEndpoint.handle (demoPeer [233]) = refusal (demoPeer [233]) ∧
    demoEndpoint.handle (demoPeer [233]) ≠ strangerEndpoint.handle (demoPeer [233]) := by
  have hdec : (decodeMessage (.text (demoHelloText [233])) :
      Except (SessionError ℚ) (Dict ℚ)) = .ok (demoHello [233]) := rfl
  have hraise : demoEndpoint.authenticate (py "example_operator") [233] =
      .error (.builtin .typeError) := rfl
  have hfail : strangerEndpoint.authenticate (py "example_operator") [233] =
      .error authFailed := rfl
  have hpeer : (demoPeer [233]).hello = some (.text (demoHelloText [233])) := rfl
  have hhandle := demoEndpoint.handle_of_error hpeer hdec (demoHello_wellFormed _) hraise
  have hhandle' := strangerEndpoint.handle_of_error hpeer hdec (demoHello_wellFormed _) hfail
  refine ⟨?_, ?_, hhandle, hhandle', ?_⟩
  · rw [hraise]
    exact fun h => nomatch h
  · rw [hfail]
    exact fun h => nomatch h
  · intro heq
    rw [hhandle, hhandle'] at heq
    exact nomatch congrArg Transcript.raised heq

end ManagementEndpoint

end Demo

end RemoteRobot
