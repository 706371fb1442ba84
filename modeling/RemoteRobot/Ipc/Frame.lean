import RemoteRobot.Lib.PlainCbor
import RemoteRobot.Model

/-!
# Frames of the worker protocol

`ipc.py`: a message is a mapping of plain values, a frame its canonical CBOR behind four bytes of
length.  Both directions check the values, the size and the depth.

`frame_roundTrip`: a frame decodes to the message it was made of, what decodes is the frame of what
it decodes to, and nothing else is accepted.
-/

namespace RemoteRobot.Ipc

open Py Except

variable {F : Type}

/-! ## Exceptions -/

/-- What the module raises: the `IPCError` classes, the `ValueError` of `encode_frame`, and what
leaves the CBOR library. -/
inductive IpcError (F : Type) where
  | schema (m : Message F)
  | frameTooLarge (m : Message F)
  | truncatedFrame (m : Message F)
  | nonCanonicalFrame (m : Message F)
  | valueError (m : Message F)
  | encoding (e : Exc)

/-- The class of an exception. -/
inductive ErrorClass where
  | ipcSchemaError | frameTooLargeError | truncatedFrameError | nonCanonicalFrameError
  | valueError
  | builtin (e : Exc)
  deriving DecidableEq, Repr

def IpcError.errorClass : IpcError F → ErrorClass
  | .schema _ => .ipcSchemaError
  | .frameTooLarge _ => .frameTooLargeError
  | .truncatedFrame _ => .truncatedFrameError
  | .nonCanonicalFrame _ => .nonCanonicalFrameError
  | .valueError _ => .valueError
  | .encoding e => .builtin e

/-- `issubclass(_, IPCError)` -/
def ErrorClass.isIpcError : ErrorClass → Bool
  | .valueError | .builtin _ => false
  | _ => true

/-! ## Values -/

/-- `DEFAULT_MAX_FRAME_BYTES` -/
def defaultMaxFrameBytes : ℤ := 4 * 1024 * 1024

/-- `MAX_VALUE_DEPTH` -/
def maxValueDepth : ℕ := 32

section Values

variable [PyFloat F]

def checkDepth (path : Str) (depth : ℕ) : Except (IpcError F) Unit :=
  raiseWhen (maxValueDepth < depth) (.schema ⟨"%: value nesting exceeds 32", [.str path]⟩)

mutual

/-- `_validate_value` -/
def validateValue : Val F → Str → ℕ → Except (IpcError F) Unit
  | .none, path, depth | .str _, path, depth | .bytes _, path, depth
  | .bool _, path, depth => checkDepth path depth
  | .int n, path, depth => do
    checkDepth path depth
    raiseWhen (¬(-2 ^ 63 ≤ n ∧ n < 2 ^ 63))
      (.schema ⟨"%: integer is outside signed 64-bit range", [.str path]⟩)
  | .float x, path, depth => do
    checkDepth path depth
    raiseWhen (PyFloat.isFinite x = false) (.schema ⟨"%: floats must be finite", [.str path]⟩)
  | .list vs, path, depth => do
    checkDepth path depth
    validateItems vs path depth 0
  | .dict kvs, path, depth => do
    checkDepth path depth
    validateEntries kvs path depth
  | .tuple _, path, depth => do
    checkDepth path depth
    .error (.schema ⟨"%: unsupported value type tuple", [.str path]⟩)

/-- The loop over a list. -/
def validateItems : List (Val F) → Str → ℕ → ℕ → Except (IpcError F) Unit
  | [], _, _, _ => .ok ()
  | item :: items, path, depth, index => do
    validateValue item (path ++ py "[" ++ natStr index ++ py "]") (depth + 1)
    validateItems items path depth (index + 1)

/-- The loop over a mapping. -/
def validateEntries : Dict F → Str → ℕ → Except (IpcError F) Unit
  | [], _, _ => .ok ()
  | (.str key, item) :: kvs, path, depth => do
    validateValue item (path ++ py "." ++ key) (depth + 1)
    validateEntries kvs path depth
  | _ :: _, path, _ => .error (.schema ⟨"%: mapping keys must be strings", [.str path]⟩)

end

/-! ## Frames -/

variable [Cbor F]

/-- `canonical_payload` -/
def canonicalPayload (message : Val F) : Except (IpcError F) Bytes :=
  match message with
  | .dict _ => do
    validateValue message (py "$") 0
    match Cbor.dumps message with
    | .ok payload => .ok payload
    | .error e => .error (.encoding e)
  | _ => .error (.schema ⟨"$: IPC messages must be mappings", []⟩)

/-- `encode_frame` for a limit that is an `int`. -/
def encodeFrame (message : Val F) (maxFrameBytes : ℤ) : Except (IpcError F) Bytes := do
  raiseWhen (maxFrameBytes ≤ 0 ∨ 0xFFFFFFFF < maxFrameBytes)
    (.valueError ⟨"max_frame_bytes must be between 1 and 2^32-1", []⟩)
  let payload ← canonicalPayload message
  raiseWhen (payload.isEmpty = true) (.schema ⟨"empty CBOR payload", []⟩)
  raiseWhen (maxFrameBytes < payload.length) (.frameTooLarge
    ⟨"frame payload is % bytes; limit is %", [.int payload.length, .int maxFrameBytes]⟩)
  .ok (Codec.beBytes 4 payload.length ++ payload)

/-- `decode_payload` -/
def decodePayload (payload : Bytes) (maxFrameBytes : ℤ) : Except (IpcError F) (Dict F) := do
  raiseWhen (payload.isEmpty = true) (.schema ⟨"empty CBOR payload", []⟩)
  raiseWhen (maxFrameBytes < payload.length) (.frameTooLarge
    ⟨"frame payload is % bytes; limit is %", [.int payload.length, .int maxFrameBytes]⟩)
  match (Cbor.loads payload : Except Exc (Val F)) with
  | .error _ => .error (.schema ⟨"invalid CBOR payload: %", []⟩)
  | .ok (.dict value) => do
    validateValue (.dict value) (py "$") 0
    match Cbor.dumps (Val.dict value) with
    | .error e => .error (.encoding e)
    | .ok canonical => do
      raiseWhen (canonical ≠ payload)
        (.nonCanonicalFrame ⟨"CBOR payload is not canonical", []⟩)
      .ok value
  | .ok _ => .error (.schema ⟨"$: IPC messages must decode to a mapping", []⟩)

/-- `decode_frame` -/
def decodeFrame (frame : Bytes) (maxFrameBytes : ℤ) : Except (IpcError F) (Dict F) :=
  match Codec.readBe 4 0 frame with
  | none => .error (.truncatedFrame ⟨"frame header is truncated", []⟩)
  | some (length, payload) => do
    raiseWhen (maxFrameBytes < length) (.frameTooLarge
      ⟨"frame payload declares % bytes; limit is %", [.int length, .int maxFrameBytes]⟩)
    raiseWhen (payload.length < length) (.truncatedFrame
      ⟨"frame payload is truncated: expected %, got %", [.int length, .int payload.length]⟩)
    raiseWhen (length < payload.length) (.schema ⟨"trailing bytes after IPC frame", []⟩)
    decodePayload payload maxFrameBytes

end Values

/-! ## The schema of the values -/

section Schema

variable [PyFloat F]

mutual

/-- The values that may be sent, apart from their depth. -/
def Admissible : Val F → Prop
  | .int n => -2 ^ 63 ≤ n ∧ n < 2 ^ 63
  | .float x => PyFloat.isFinite x = true
  | .list vs => AdmissibleItems vs
  | .tuple _ => False
  | .dict kvs => AdmissibleEntries kvs
  | _ => True

def AdmissibleItems : List (Val F) → Prop
  | [] => True
  | v :: vs => Admissible v ∧ AdmissibleItems vs

def AdmissibleEntries : Dict F → Prop
  | [] => True
  | (k, v) :: kvs => (∃ s, k = .str s) ∧ Admissible v ∧ AdmissibleEntries kvs

end

mutual

/-- The number of containers around the deepest value. -/
def valueDepth : Val F → ℕ
  | .list vs => depthItems vs
  | .dict kvs => depthEntries kvs
  | _ => 0

def depthItems : List (Val F) → ℕ
  | [] => 0
  | v :: vs => max (valueDepth v + 1) (depthItems vs)

def depthEntries : Dict F → ℕ
  | [] => 0
  | (_, v) :: kvs => max (valueDepth v + 1) (depthEntries kvs)

end

theorem admissibleItems_iff {vs : List (Val F)} :
    AdmissibleItems vs ↔ ∀ v ∈ vs, Admissible v := by
  induction vs with
  | nil => simp [AdmissibleItems]
  | cons v vs ih => rw [AdmissibleItems, ih, List.forall_mem_cons]

theorem admissibleEntries_iff {kvs : Dict F} :
    AdmissibleEntries kvs ↔ ∀ p ∈ kvs, (∃ s, p.1 = .str s) ∧ Admissible p.2 := by
  induction kvs with
  | nil => simp [AdmissibleEntries]
  | cons p kvs ih => rw [AdmissibleEntries, ih, List.forall_mem_cons, and_assoc]

omit [PyFloat F] in
theorem depthItems_le {vs : List (Val F)} {n : ℕ} :
    depthItems vs ≤ n ↔ ∀ v ∈ vs, valueDepth v + 1 ≤ n := by
  induction vs with
  | nil => simp [depthItems]
  | cons v vs ih => rw [depthItems, max_le_iff, ih, List.forall_mem_cons]

omit [PyFloat F] in
theorem depthEntries_le {kvs : Dict F} {n : ℕ} :
    depthEntries kvs ≤ n ↔ ∀ p ∈ kvs, valueDepth p.2 + 1 ≤ n := by
  induction kvs with
  | nil => simp [depthEntries]
  | cons p kvs ih => rw [depthEntries, max_le_iff, ih, List.forall_mem_cons]

omit [PyFloat F] in
theorem checkDepth_eq_ok {path : Str} {depth : ℕ} :
    (checkDepth path depth : Except (IpcError F) Unit) = .ok () ↔ depth ≤ 32 := by
  unfold checkDepth
  rw [raiseWhen_eq_ok, Nat.not_lt]
  rfl

mutual

/-- `_validate_value` returns for the values of the schema that are not too deep. -/
theorem validateValue_eq_ok : ∀ {v : Val F} {path : Str} {depth : ℕ},
    validateValue v path depth = .ok () ↔ Admissible v ∧ depth + valueDepth v ≤ 32
  | .none, _, _ | .str _, _, _ | .bytes _, _, _ | .bool _, _, _ => by
    rw [validateValue, checkDepth_eq_ok]
    simp [Admissible, valueDepth]
  | .int n, _, _ => by
    simp only [validateValue, bind_eq_ok, exists_unit, checkDepth_eq_ok, raiseWhen_eq_ok, not_not]
    exact and_comm
  | .float x, _, _ => by
    simp only [validateValue, bind_eq_ok, exists_unit, checkDepth_eq_ok, raiseWhen_eq_ok,
      Bool.not_eq_false]
    exact and_comm
  | .tuple _, _, _ => by
    simp [validateValue, bind_eq_ok, Admissible]
  | .list vs, path, depth => by
    simp only [validateValue, bind_eq_ok, exists_unit, checkDepth_eq_ok, validateItems_eq_ok]
    rw [Admissible, admissibleItems_iff, valueDepth]
    constructor
    · rintro ⟨hd, h⟩
      have hle : depthItems vs ≤ 32 - depth := by
        rw [depthItems_le]
        intro v hv
        have := (h v hv).2
        omega
      exact ⟨fun v hv => (h v hv).1, by omega⟩
    · rintro ⟨h, hd⟩
      refine ⟨by omega, fun v hv => ⟨h v hv, ?_⟩⟩
      have := depthItems_le.1 (show depthItems vs ≤ 32 - depth by omega) v hv
      omega
  | .dict kvs, path, depth => by
    simp only [validateValue, bind_eq_ok, exists_unit, checkDepth_eq_ok, validateEntries_eq_ok]
    rw [Admissible, admissibleEntries_iff, valueDepth]
    constructor
    · rintro ⟨hd, h⟩
      have hle : depthEntries kvs ≤ 32 - depth := by
        rw [depthEntries_le]
        intro p hp
        have := (h p hp).2.2
        omega
      exact ⟨fun p hp => ⟨(h p hp).1, (h p hp).2.1⟩, by omega⟩
    · rintro ⟨h, hd⟩
      refine ⟨by omega, fun p hp => ⟨(h p hp).1, (h p hp).2, ?_⟩⟩
      have := depthEntries_le.1 (show depthEntries kvs ≤ 32 - depth by omega) p hp
      omega

theorem validateItems_eq_ok : ∀ {vs : List (Val F)} {path : Str} {depth index : ℕ},
    validateItems vs path depth index = .ok () ↔
      ∀ v ∈ vs, Admissible v ∧ depth + 1 + valueDepth v ≤ 32
  | [], _, _, _ => by simp [validateItems]
  | v :: vs, _, _, _ => by
    rw [validateItems, bind_eq_ok, exists_unit, validateValue_eq_ok, validateItems_eq_ok,
      List.forall_mem_cons]

theorem validateEntries_eq_ok : ∀ {kvs : Dict F} {path : Str} {depth : ℕ},
    validateEntries kvs path depth = .ok () ↔
      ∀ p ∈ kvs, (∃ s, p.1 = .str s) ∧ Admissible p.2 ∧ depth + 1 + valueDepth p.2 ≤ 32
  | [], _, _ => by simp [validateEntries]
  | (k, v) :: kvs, path, depth => by
    rw [List.forall_mem_cons]
    by_cases hk : ∃ s, k = .str s
    · obtain ⟨s, rfl⟩ := hk
      rw [validateEntries, bind_eq_ok, exists_unit, validateValue_eq_ok, validateEntries_eq_ok]
      simp
    · have herr : validateEntries ((k, v) :: kvs) path depth =
          .error (.schema ⟨"%: mapping keys must be strings", [.str path]⟩) := by
        cases k with
        | str s => exact absurd ⟨s, rfl⟩ hk
        | _ => rfl
      simp [herr, hk]

end

omit [PyFloat F] in
theorem schema_of_raiseWhen {c : Prop} [Decidable c] {m : Message F} {e : IpcError F}
    (h : raiseWhen c (.schema m) = .error e) : ∃ m, e = .schema m := by
  obtain ⟨-, rfl⟩ := raiseWhen_eq_error.1 h
  exact ⟨m, rfl⟩

mutual

/-- A value that is refused is refused as a schema error. -/
theorem schema_of_validateValue : ∀ {v : Val F} {path : Str} {depth : ℕ} {e : IpcError F},
    validateValue v path depth = .error e → ∃ m, e = .schema m
  | .none, _, _, _, h | .str _, _, _, _, h | .bytes _, _, _, _, h | .bool _, _, _, _, h => by
    rw [validateValue] at h
    exact schema_of_raiseWhen h
  | .int _, _, _, _, h | .float _, _, _, _, h => by
    rw [validateValue, bind_eq_error] at h
    rcases h with h | ⟨_, -, h⟩ <;> exact schema_of_raiseWhen h
  | .tuple _, _, _, _, h => by
    rw [validateValue, bind_eq_error] at h
    rcases h with h | ⟨_, -, h⟩
    · exact schema_of_raiseWhen h
    · cases h
      exact ⟨_, rfl⟩
  | .list vs, _, _, _, h => by
    rw [validateValue, bind_eq_error] at h
    rcases h with h | ⟨_, -, h⟩
    · exact schema_of_raiseWhen h
    · exact schema_of_validateItems h
  | .dict kvs, _, _, _, h => by
    rw [validateValue, bind_eq_error] at h
    rcases h with h | ⟨_, -, h⟩
    · exact schema_of_raiseWhen h
    · exact schema_of_validateEntries h

theorem schema_of_validateItems : ∀ {vs : List (Val F)} {path : Str} {depth index : ℕ}
    {e : IpcError F}, validateItems vs path depth index = .error e → ∃ m, e = .schema m
  | v :: vs, _, _, _, _, h => by
    rw [validateItems, bind_eq_error] at h
    rcases h with h | ⟨_, -, h⟩
    · exact schema_of_validateValue h
    · exact schema_of_validateItems h

theorem schema_of_validateEntries : ∀ {kvs : Dict F} {path : Str} {depth : ℕ} {e : IpcError F},
    validateEntries kvs path depth = .error e → ∃ m, e = .schema m
  | (.str _, v) :: kvs, _, _, _, h => by
    rw [validateEntries, bind_eq_error] at h
    rcases h with h | ⟨_, -, h⟩
    · exact schema_of_validateValue h
    · exact schema_of_validateEntries h
  | (.none, _) :: _, _, _, _, h | (.bool _, _) :: _, _, _, _, h | (.int _, _) :: _, _, _, _, h
  | (.float _, _) :: _, _, _, _, h | (.bytes _, _) :: _, _, _, _, h
  | (.tuple _, _) :: _, _, _, _, h => by
    simp only [validateEntries, Except.error.injEq] at h
    exact ⟨_, h.symm⟩

end

mutual

/-- Reading back keeps the schema and the depth. -/
theorem Admissible.reads : ∀ {v w : Val F}, v.Reads w → Admissible v →
    Admissible w ∧ valueDepth w = valueDepth v
  | .none, _, h, hv | .bool _, _, h, hv | .int _, _, h, hv | .float _, _, h, hv
  | .str _, _, h, hv | .bytes _, _, h, hv => by
    rw [show _ = _ from h]
    exact ⟨hv, rfl⟩
  | .tuple _, _, _, hv => hv.elim
  | .list vs, _, h, hv => by
    obtain ⟨ws, rfl, hws⟩ := h
    exact AdmissibleItems.reads hws hv
  | .dict a, _, h, hv => by
    obtain ⟨b, c, rfl, hp, hc⟩ := h
    obtain ⟨hadm, hdepth⟩ := AdmissibleEntries.reads hc hv
    rw [admissibleEntries_iff] at hadm
    refine ⟨admissibleEntries_iff.2 fun p hpb => hadm p (hp.mem_iff.2 hpb), ?_⟩
    rw [valueDepth, valueDepth, ← hdepth]
    apply le_antisymm <;> rw [depthEntries_le] <;> intro p hpb
    · exact depthEntries_le.1 le_rfl p (hp.mem_iff.2 hpb)
    · exact depthEntries_le.1 le_rfl p (hp.mem_iff.1 hpb)

theorem AdmissibleItems.reads : ∀ {vs ws : List (Val F)}, Val.ReadsList vs ws →
    AdmissibleItems vs → AdmissibleItems ws ∧ depthItems ws = depthItems vs
  | [], _, h, _ => by
    rw [show _ = [] from h]
    exact ⟨trivial, rfl⟩
  | v :: vs, _, h, hv => by
    obtain ⟨w, ws', rfl, hw, hws⟩ := h
    obtain ⟨hadm, hdepth⟩ := Admissible.reads hw hv.1
    obtain ⟨hadms, hdepths⟩ := AdmissibleItems.reads hws hv.2
    exact ⟨⟨hadm, hadms⟩, by rw [depthItems, depthItems, hdepth, hdepths]⟩

theorem AdmissibleEntries.reads : ∀ {a c : Dict F}, Val.ReadsDict a c →
    AdmissibleEntries a → AdmissibleEntries c ∧ depthEntries c = depthEntries a
  | [], _, h, _ => by
    rw [show _ = [] from h]
    exact ⟨trivial, rfl⟩
  | (k, v) :: a, _, h, hv => by
    obtain ⟨w, c', rfl, hw, hc⟩ := h
    obtain ⟨hadm, hdepth⟩ := Admissible.reads hw hv.2.1
    obtain ⟨hadms, hdepths⟩ := AdmissibleEntries.reads hc hv.2.2
    exact ⟨⟨hv.1, hadm, hadms⟩, by rw [depthEntries, depthEntries, hdepth, hdepths]⟩

end

mutual

/-- A value of the schema equals what it reads back as. -/
theorem Admissible.plain [LawfulFloat F] : ∀ {v : Val F}, Admissible v → v.wellFormed = true →
    v.Plain
  | .none, _, _ | .bool _, _, _ | .int _, _, _ | .str _, _, _ | .bytes _, _, _ => trivial
  | .float x, h, _ => LawfulFloat.eq_self x h
  | .tuple _, h, _ => h.elim
  | .list vs, h, hw => AdmissibleItems.plain h hw
  | .dict kvs, h, hw => by
    rw [Val.wellFormed, Bool.and_eq_true] at hw
    have hstr : ∀ p ∈ kvs, ∃ s, p.1 = .str s := fun p hp => (admissibleEntries_iff.1 h p hp).1
    refine ⟨?_, hstr, AdmissibleEntries.plain h hw.2⟩
    rw [← distinctKeys_iff_nodup]
    · exact hw.1
    · intro k hk
      obtain ⟨p, hp, rfl⟩ := List.mem_map.1 hk
      exact hstr p hp

theorem AdmissibleItems.plain [LawfulFloat F] : ∀ {vs : List (Val F)}, AdmissibleItems vs →
    Val.wellFormeds vs = true → Val.PlainList vs
  | [], _, _ => trivial
  | v :: vs, h, hw => by
    rw [Val.wellFormeds, Bool.and_eq_true] at hw
    exact ⟨h.1.plain hw.1, AdmissibleItems.plain h.2 hw.2⟩

theorem AdmissibleEntries.plain [LawfulFloat F] : ∀ {kvs : Dict F}, AdmissibleEntries kvs →
    Val.wellFormedDict kvs = true → Val.PlainDict kvs
  | [], _, _ => trivial
  | (_, v) :: kvs, h, hw => by
    rw [Val.wellFormedDict, Bool.and_eq_true] at hw
    exact ⟨h.2.1.plain hw.1, AdmissibleEntries.plain h.2.2 hw.2⟩

end

end Schema

/-! ## What each direction accepts -/

section Accepts

variable [PyFloat F] [Cbor F] {m : Val F} {w : Dict F} {b payload : Bytes} {L : ℤ}

/-- A message of the schema. -/
def Sendable (v : Val F) : Prop := Admissible v ∧ valueDepth v ≤ 32

omit [Cbor F] in
theorem Sendable.reads {v u : Val F} (h : Sendable v) (hr : v.Reads u) : Sendable u := by
  obtain ⟨hadm, hdepth⟩ := h.1.reads hr
  exact ⟨hadm, hdepth ▸ h.2⟩

theorem canonicalPayload_eq_ok : canonicalPayload m = .ok payload ↔
    (∃ kvs, m = .dict kvs) ∧ Sendable m ∧ Cbor.dumps m = .ok payload := by
  by_cases hm : ∃ kvs, m = .dict kvs
  · obtain ⟨kvs, rfl⟩ := hm
    rw [canonicalPayload, bind_eq_ok, exists_unit, validateValue_eq_ok, Nat.zero_add]
    rcases (Cbor.dumps (Val.dict kvs) : Except Exc Bytes) with e | p <;> simp [Sendable]
  · have herr : canonicalPayload m =
        .error (.schema ⟨"$: IPC messages must be mappings", []⟩) := by
      cases m with
      | dict kvs => exact absurd ⟨kvs, rfl⟩ hm
      | _ => rfl
    simp [herr, hm]

theorem encodeFrame_eq_ok : encodeFrame m L = .ok b ↔ L ≤ 0xFFFFFFFF ∧ ∃ payload,
    canonicalPayload m = .ok payload ∧ payload ≠ [] ∧ payload.length ≤ L ∧
      b = Codec.beBytes 4 payload.length ++ payload := by
  simp only [encodeFrame, bind_eq_ok, exists_unit, raiseWhen_eq_ok, not_or, not_le, not_lt,
    List.isEmpty_iff, Except.ok.injEq]
  constructor
  · rintro ⟨⟨-, hL⟩, p, hp, hne, hle, rfl⟩
    exact ⟨hL, p, hp, hne, hle, rfl⟩
  · rintro ⟨hL, p, hp, hne, hle, rfl⟩
    have hpos := List.length_pos_iff.2 hne
    exact ⟨⟨by omega, hL⟩, p, hp, hne, hle, rfl⟩

theorem decodePayload_eq_ok : decodePayload payload L = .ok w ↔
    payload ≠ [] ∧ payload.length ≤ L ∧ Cbor.loads payload = .ok (Val.dict w) ∧
      Sendable (Val.dict w) ∧ Cbor.dumps (Val.dict w) = .ok payload := by
  simp only [decodePayload, bind_eq_ok, exists_unit, raiseWhen_eq_ok, List.isEmpty_iff, not_lt]
  refine and_congr_right fun _ => and_congr_right fun _ => ?_
  rcases (Cbor.loads payload : Except Exc (Val F)) with e | v
  · simp
  · by_cases hv : ∃ kvs, v = .dict kvs
    · obtain ⟨kvs, rfl⟩ := hv
      simp only [bind_eq_ok, exists_unit, validateValue_eq_ok, Nat.zero_add, Except.ok.injEq,
        Val.dict.injEq]
      rcases hd : (Cbor.dumps (Val.dict kvs) : Except Exc Bytes) with e | p
      · simp only [reduceCtorEq, and_false, false_iff, not_and]
        rintro rfl -
        rw [hd]
        simp
      · simp only [bind_eq_ok, exists_unit, raiseWhen_eq_ok, not_not, Except.ok.injEq]
        constructor
        · rintro ⟨hs, rfl, rfl⟩
          exact ⟨rfl, hs, hd⟩
        · rintro ⟨rfl, hs, hp⟩
          exact ⟨hs, Except.ok.inj (hd.symm.trans hp), rfl⟩
    · have hne : (Except.ok v : Except Exc (Val F)) ≠ .ok (.dict w) :=
        fun he => hv ⟨w, Except.ok.inj he⟩
      simp only [hne, false_and, iff_false]
      cases v with
      | dict kvs => exact absurd ⟨kvs, rfl⟩ hv
      | _ => simp

/-- A frame is its length and its payload, nothing more and nothing less. -/
theorem decodeFrame_eq_ok : decodeFrame b L = .ok w ↔ ∃ payload,
    b = Codec.beBytes 4 payload.length ++ payload ∧ payload.length < 256 ^ 4 ∧
      decodePayload payload L = .ok w := by
  constructor
  · intro h
    unfold decodeFrame at h
    split at h
    · cases h
    · rename_i length payload hread
      obtain ⟨rfl, hlt⟩ := Codec.eq_of_readBe hread
      simp only [bind_eq_ok, exists_unit, raiseWhen_eq_ok, not_lt] at h
      obtain ⟨-, hge, hle, hp⟩ := h
      obtain rfl : length = payload.length := le_antisymm hge hle
      exact ⟨payload, rfl, hlt, hp⟩
  · rintro ⟨payload, rfl, hlt, hp⟩
    have hle := (decodePayload_eq_ok.1 hp).2.1
    unfold decodeFrame
    rw [Codec.readBe_beBytes_lt hlt]
    simp only [bind_eq_ok, exists_unit, raiseWhen_eq_ok, not_lt]
    exact ⟨hle, le_rfl, le_rfl, hp⟩

end Accepts

/-! ## Both directions -/

section RoundTrip

variable [PyFloat F] [LawfulFloat F] [Cbor F] [PlainCbor F]
  {m : Val F} {w w' : Dict F} {b b' t payload : Bytes} {L : ℤ}

/-- The frame of a message under a limit. -/
structure IsFrame (L : ℤ) (b : Bytes) (w : Dict F) : Prop where
  bytes : ∃ payload, Cbor.dumps (Val.dict w) = .ok payload ∧
    b = Codec.beBytes 4 payload.length ++ payload ∧ 0 < payload.length ∧ payload.length ≤ L
  sendable : Sendable (Val.dict w)
  wellFormed : (Val.dict w).wellFormed = true

/-- A payload decodes to what its message reads back as. -/
theorem decodePayload_of_canonicalPayload (hm : m.wellFormed = true)
    (h : canonicalPayload m = .ok payload) (hne : payload ≠ []) (hle : payload.length ≤ L) :
    ∃ w, decodePayload payload L = .ok w ∧ m.Reads (.dict w) ∧
      Val.eq m (.dict w) = true := by
  obtain ⟨⟨kvs, rfl⟩, hs, hd⟩ := canonicalPayload_eq_ok.1 h
  obtain ⟨u, hu, hr⟩ := PlainCbor.loads_dumps _ _ hm hd
  obtain ⟨w, rfl⟩ : ∃ w, u = .dict w := by
    obtain ⟨w, _, rfl, -⟩ := hr
    exact ⟨w, rfl⟩
  have hd' : Cbor.dumps (Val.dict w) = .ok payload := (PlainCbor.dumps_reads _ _ hr).trans hd
  refine ⟨w, decodePayload_eq_ok.2 ⟨hne, hle, hu, hs.reads hr, hd'⟩, hr, ?_⟩
  exact hr.eq (hs.1.plain hm)

theorem decodeFrame_of_encodeFrame (hm : m.wellFormed = true) (h : encodeFrame m L = .ok b) :
    ∃ w, decodeFrame b L = .ok w ∧ Val.eq m (.dict w) = true := by
  obtain ⟨hL, payload, hp, hne, hle, rfl⟩ := encodeFrame_eq_ok.1 h
  obtain ⟨w, hw, -, heq⟩ := decodePayload_of_canonicalPayload hm hp hne hle
  exact ⟨w, decodeFrame_eq_ok.2 ⟨payload, rfl, by omega, hw⟩, heq⟩

omit [LawfulFloat F] [PlainCbor F] in
theorem encodeFrame_of_decodeFrame (h : decodeFrame b L = .ok w) (hL : L ≤ 0xFFFFFFFF) :
    encodeFrame (.dict w) L = .ok b := by
  obtain ⟨payload, rfl, -, hp⟩ := decodeFrame_eq_ok.1 h
  obtain ⟨hne, hle, -, hs, hd⟩ := decodePayload_eq_ok.1 hp
  have hc : canonicalPayload (.dict w) = .ok payload :=
    canonicalPayload_eq_ok.2 ⟨⟨w, rfl⟩, hs, hd⟩
  exact encodeFrame_eq_ok.2 ⟨hL, payload, hc, hne, hle, rfl⟩

omit [LawfulFloat F] in
theorem isFrame_of_decodeFrame (h : decodeFrame b L = .ok w) : IsFrame L b w := by
  obtain ⟨payload, rfl, -, hp⟩ := decodeFrame_eq_ok.1 h
  obtain ⟨hne, hle, hl, hs, hd⟩ := decodePayload_eq_ok.1 hp
  exact ⟨⟨payload, hd, rfl, List.length_pos_iff.2 hne, hle⟩, hs, (PlainCbor.loads_ok _ _ hl).1⟩

omit [LawfulFloat F] [PlainCbor F] in
/-- The length in front tells where a frame ends. -/
theorem eq_nil_of_decodeFrame (h : decodeFrame b L = .ok w) (h' : decodeFrame (b ++ t) L = .ok w') :
    t = [] := by
  obtain ⟨payload, rfl, hlt, -⟩ := decodeFrame_eq_ok.1 h
  obtain ⟨payload', he, hlt', -⟩ := decodeFrame_eq_ok.1 h'
  have hread := Codec.readBe_beBytes_lt hlt' payload'
  rw [← he, List.append_assoc, Codec.readBe_beBytes_lt hlt, Option.some.injEq, Prod.mk.injEq]
    at hread
  have hlen := congrArg List.length hread.2
  rw [List.length_append] at hlen
  exact List.length_eq_zero_iff.1 (by omega)

/-- Encoding and decoding under one limit are inverse to each other, for the limits `encode_frame`
admits, and no byte string is accepted that is not the frame of its message. -/
theorem frame_roundTrip (L : ℤ) :
    (∀ (m : Val F) (b : Bytes), m.wellFormed = true → encodeFrame m L = .ok b →
      ∃ w, decodeFrame b L = .ok w ∧ Val.eq m (.dict w) = true) ∧
    (∀ (b : Bytes) (w : Dict F), decodeFrame b L = .ok w → IsFrame L b w ∧
      (L ≤ 0xFFFFFFFF → encodeFrame (.dict w) L = .ok b)) ∧
    (∀ (b b' : Bytes) (w : Dict F), decodeFrame b L = .ok w → decodeFrame b' L = .ok w →
      b = b') ∧
    ∀ (b t : Bytes) (w w' : Dict F), decodeFrame b L = .ok w → decodeFrame (b ++ t) L = .ok w' →
      t = [] := by
  refine ⟨fun m b hm h => decodeFrame_of_encodeFrame hm h, fun b w h => ?_, fun b b' w h h' => ?_,
    fun b t w w' h h' => eq_nil_of_decodeFrame h h'⟩
  · exact ⟨isFrame_of_decodeFrame h, encodeFrame_of_decodeFrame h⟩
  · obtain ⟨p, hd, rfl, -⟩ := (isFrame_of_decodeFrame h).bytes
    obtain ⟨p', hd', rfl, -⟩ := (isFrame_of_decodeFrame h').bytes
    rw [Except.ok.inj (hd.symm.trans hd')]

end RoundTrip

section Demo

local instance frameCodec : Cbor ℚ := strictCodec

local instance framePlain : PlainCbor ℚ := plainCbor_strictCodec

def demoMessage : Val ℚ :=
  dictOf [("kind", .str (py "event")), ("version", .int 1),
    ("event", dictOf [("z", .int 1), ("a", .list [.float 1, .bool true, .none])])]

theorem frame_roundTrip_demo : ∃ b w, encodeFrame demoMessage defaultMaxFrameBytes = .ok b ∧
    decodeFrame b defaultMaxFrameBytes = .ok w ∧ Val.eq demoMessage (.dict w) = true ∧
    encodeFrame (.dict w) defaultMaxFrameBytes = .ok b := by
  have hok : (encodeFrame demoMessage defaultMaxFrameBytes).isOk = true := by decide +kernel
  obtain ⟨b, hb⟩ := exists_of_isOk hok
  obtain ⟨hdecode, hencode, -⟩ := frame_roundTrip (F := ℚ) defaultMaxFrameBytes
  obtain ⟨w, hw, heq⟩ := hdecode demoMessage b (by decide +kernel) hb
  exact ⟨b, w, hb, hw, heq, (hencode b w hw).2 (by decide)⟩

/-- `decode_frame` takes a limit that `encode_frame` refuses. -/
theorem frame_counterexample : ∃ (b : Bytes) (w : Dict ℚ), decodeFrame b (2 ^ 32) = .ok w ∧
    (encodeFrame (.dict w) (2 ^ 32)).isOk = false := by
  have hok : (decodeFrame [0, 0, 0, 1, 160] (2 ^ 32) : Except (IpcError ℚ) _).isOk = true := by
    decide +kernel
  obtain ⟨w, hw⟩ := exists_of_isOk hok
  exact ⟨_, w, hw, rfl⟩

end Demo

end RemoteRobot.Ipc
