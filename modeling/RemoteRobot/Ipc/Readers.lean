import RemoteRobot.Ipc.Frame

/-!
# The two ends of the pipe

`worker_process._read_blocking` reads frames from a blocking stream, whose reads may return less
than they were asked for; `ipc.read_frame` reads them from an asyncio stream.  `readers_agree`: over
the same bytes both yield the same messages and end alike.
-/

namespace RemoteRobot.Ipc

open Py Except

variable {F : Type}

/-! ## Streams -/

/-- `int.from_bytes(b, "big")` -/
def fromBytes (b : Bytes) : ℕ := b.foldl (fun n c => n * 256 + c.toNat) 0

/-- A blocking binary stream: the bytes before its end, and for each read to come how many bytes
more than one it returns at most. -/
structure BinaryStream where
  rest : Bytes
  pieces : ℕ → ℕ

/-- `stream.read(n)`; nothing at the end of the stream only, for a positive `n`. -/
def BinaryStream.read (s : BinaryStream) (n : ℕ) : Bytes × BinaryStream :=
  (s.rest.take (min n (s.pieces 0 + 1)),
    ⟨s.rest.drop (min n (s.pieces 0 + 1)), fun i => s.pieces (i + 1)⟩)

/-- The bytes an `asyncio.StreamReader` gets before the end of its stream. -/
abbrev StreamReader := Bytes

/-- `reader.readexactly(n)`; the error is the partial data of an `IncompleteReadError`. -/
def StreamReader.readexactly (r : StreamReader) (n : ℕ) : Except Bytes Bytes × StreamReader :=
  if n ≤ r.length then (.ok (r.take n), r.drop n) else (.error r, [])

/-! ## The readers -/

/-- The loop of `_read_exact`, with the bytes read so far. -/
def readExactFrom (length : ℕ) (chunks : Bytes) (s : BinaryStream) :
    Except (IpcError F) Bytes × BinaryStream :=
  if chunks.length < length then
    match s.read (length - chunks.length) with
    | ([], s') =>
      if chunks.isEmpty then (.ok [], s')
      else (.error (.truncatedFrame ⟨"stdio frame ended after % of % bytes",
        [.int chunks.length, .int length]⟩), s')
    | (c :: chunk, s') => readExactFrom length (chunks ++ c :: chunk) s'
  else (.ok chunks, s)
termination_by length - chunks.length
decreasing_by
  simp only [List.length_append, List.length_cons]
  omega

/-- `_read_exact` -/
def readExact (s : BinaryStream) (length : ℕ) : Except (IpcError F) Bytes × BinaryStream :=
  readExactFrom length [] s

section Readers

variable [PyFloat F] [Cbor F]

/-- `_read_blocking` -/
def readBlocking (maxFrameBytes : ℤ) (s : BinaryStream) :
    Except (IpcError F) (Option (Dict F)) × BinaryStream :=
  match readExact s 4 with
  | (.error e, s) => (.error e, s)
  | (.ok [], s) => (.ok none, s)
  | (.ok header, s) =>
    if header.length ≠ 4 then
      (.error (.truncatedFrame ⟨"stdio frame header is truncated", []⟩), s)
    else if maxFrameBytes < fromBytes header then
      (.error (.frameTooLarge ⟨"stdio frame declares % bytes; limit is %",
        [.int (fromBytes header), .int maxFrameBytes]⟩), s)
    else match readExact s (fromBytes header) with
      | (.error e, s) => (.error e, s)
      | (.ok payload, s) =>
        if payload.length ≠ fromBytes header then
          (.error (.truncatedFrame ⟨"stdio frame payload is truncated", []⟩), s)
        else ((decodePayload payload maxFrameBytes).map some, s)

/-- `read_frame` -/
def readFrame (maxFrameBytes : ℤ) (allowEof : Bool) (r : StreamReader) :
    Except (IpcError F) (Option (Dict F)) × StreamReader :=
  match r.readexactly 4 with
  | (.error partialData, r) =>
    if allowEof && partialData.isEmpty then (.ok none, r)
    else (.error (.truncatedFrame ⟨"frame header is truncated: got % of 4 bytes",
      [.int partialData.length]⟩), r)
  | (.ok header, r) =>
    if maxFrameBytes < fromBytes header then
      (.error (.frameTooLarge ⟨"frame payload declares % bytes; limit is %",
        [.int (fromBytes header), .int maxFrameBytes]⟩), r)
    else match r.readexactly (fromBytes header) with
      | (.error partialData, r) =>
        (.error (.truncatedFrame ⟨"frame payload is truncated: expected %, got %",
          [.int (fromBytes header), .int partialData.length]⟩), r)
      | (.ok payload, r) => ((decodePayload payload maxFrameBytes).map some, r)

end Readers

/-! ## Reading a stream to its end -/

/-- How a stream ends for its reader. -/
inductive StreamEnd where
  | clean
  | failed (c : ErrorClass)
  deriving DecidableEq, Repr

/-- The messages of at most `n` reads and the end behind them; `none` when there is none yet. -/
def drain {σ : Type} (next : σ → Except (IpcError F) (Option (Dict F)) × σ) :
    ℕ → σ → Option (List (Dict F) × StreamEnd)
  | 0, _ => none
  | n + 1, s => match next s with
    | (.error e, _) => some ([], .failed e.errorClass)
    | (.ok none, _) => some ([], .clean)
    | (.ok (some message), s') => (drain next n s').map fun r => (message :: r.1, r.2)

/-! ## Exact reads -/

section Exact

variable {s : BinaryStream} {length : ℕ} {chunks : Bytes}

/-- A read of a stream with bytes left takes some of them. -/
theorem read_cases (n : ℕ) (hn : 0 < n) (s : BinaryStream) :
    (s.rest = [] ∧ ∃ s', s.read n = ([], s') ∧ s'.rest = []) ∨
    ∃ c chunk s', s.read n = (c :: chunk, s') ∧ s.rest = (c :: chunk) ++ s'.rest ∧
      chunk.length < n := by
  unfold BinaryStream.read
  rcases hrest : s.rest with _ | ⟨c, rest⟩
  · rw [List.take_nil, List.drop_nil]
    exact .inl ⟨rfl, _, rfl, rfl⟩
  · obtain ⟨k, hk⟩ : ∃ k, min n (s.pieces 0 + 1) = k + 1 :=
      Nat.exists_eq_succ_of_ne_zero (by omega)
    refine .inr ⟨c, rest.take k, ⟨rest.drop k, fun i => s.pieces (i + 1)⟩, ?_, ?_, ?_⟩
    · rw [hk]
      rfl
    · rw [List.cons_append, List.take_append_drop]
    · rw [List.length_take]
      omega

/-- The loop of `_read_exact` over a stream with enough bytes. -/
theorem readExactFrom_of_le (hc : chunks.length ≤ length)
    (h : length - chunks.length ≤ s.rest.length) :
    ∃ s', (readExactFrom length chunks s : Except (IpcError F) Bytes × BinaryStream) =
      (.ok (chunks ++ s.rest.take (length - chunks.length)), s') ∧
      s'.rest = s.rest.drop (length - chunks.length) := by
  induction hn : length - chunks.length using Nat.strong_induction_on generalizing chunks s with
  | _ n ih =>
    subst hn
    unfold readExactFrom
    by_cases hlt : chunks.length < length
    · rw [if_pos hlt]
      obtain ⟨hnil, -⟩ | ⟨c, chunk, s', hread, hrest, hle⟩ :=
        read_cases (length - chunks.length) (by omega) s
      · rw [hnil, List.length_nil] at h
        omega
      · rw [hread]
        simp only
        have hlen : (chunks ++ c :: chunk).length = chunks.length + (chunk.length + 1) := by
          rw [List.length_append, List.length_cons]
        rw [hrest, List.length_append, List.length_cons] at h
        obtain ⟨t, ht, htrest⟩ := @ih (length - (chunks ++ c :: chunk).length) (by omega)
          s' (chunks ++ c :: chunk) (by omega) (by omega) rfl
        refine ⟨t, ?_, ?_⟩
        · rw [ht, hrest, List.take_append, List.append_assoc, hlen]
          congr 3
          rw [List.take_of_length_le (show (c :: chunk).length ≤ _ by
            rw [List.length_cons]
            omega), List.length_cons]
          congr 2
          omega
        · rw [htrest, hrest, List.drop_append, hlen, List.length_cons]
          rw [List.drop_eq_nil_of_le (show (c :: chunk).length ≤ _ by
            rw [List.length_cons]
            omega), List.nil_append]
          congr 1
          omega
    · rw [if_neg hlt]
      have hzero : length - chunks.length = 0 := by omega
      exact ⟨s, by rw [hzero]; simp, by rw [hzero]; rfl⟩

/-- The loop over a stream that ends before. -/
theorem readExactFrom_of_lt (h : s.rest.length < length - chunks.length) :
    ∃ s', s'.rest = [] ∧ ((chunks = [] ∧ s.rest = [] ∧
      (readExactFrom length chunks s : Except (IpcError F) Bytes × BinaryStream) = (.ok [], s')) ∨
      (chunks ++ s.rest ≠ [] ∧ ∃ m, readExactFrom length chunks s =
        (.error (.truncatedFrame m : IpcError F), s'))) := by
  induction hn : s.rest.length using Nat.strong_induction_on generalizing chunks s with
  | _ n ih =>
    subst hn
    unfold readExactFrom
    rw [if_pos (by omega)]
    obtain ⟨hnil, s', hread, hend⟩ | ⟨c, chunk, s', hread, hrest, -⟩ :=
      read_cases (length - chunks.length) (by omega) s
    · rw [hread]
      refine ⟨s', hend, ?_⟩
      by_cases hc : chunks = []
      · exact .inl ⟨hc, hnil, by simp [hc]⟩
      · exact .inr ⟨by simp [hc], _, by simp [hc]; rfl⟩
    · rw [hread]
      simp only
      rw [hrest, List.length_append, List.length_cons] at h
      obtain ⟨t, hend, ⟨hnil, -⟩ | ⟨-, m, hm⟩⟩ := @ih s'.rest.length
        (by rw [hrest, List.length_append, List.length_cons]; omega) s' (chunks ++ c :: chunk)
        (by rw [List.length_append, List.length_cons]; omega) rfl
      · simp at hnil
      · exact ⟨t, hend, .inr ⟨by simp [hrest], m, hm⟩⟩

theorem readExact_of_le (h : length ≤ s.rest.length) :
    ∃ s', (readExact s length : Except (IpcError F) Bytes × BinaryStream) =
      (.ok (s.rest.take length), s') ∧ s'.rest = s.rest.drop length := by
  have := readExactFrom_of_le (F := F) (show ([] : Bytes).length ≤ length from Nat.zero_le length) h
  simpa [readExact] using this

theorem readExact_of_lt (h : s.rest.length < length) :
    ∃ s', s'.rest = [] ∧ ((s.rest = [] ∧
      (readExact s length : Except (IpcError F) Bytes × BinaryStream) = (.ok [], s')) ∨
      (s.rest ≠ [] ∧ ∃ m, readExact s length = (.error (.truncatedFrame m : IpcError F), s'))) := by
  obtain ⟨s', hend, ⟨-, hnil, hok⟩ | ⟨hne, hm⟩⟩ :=
    readExactFrom_of_lt (F := F) (show s.rest.length < length - ([] : Bytes).length from h)
  · exact ⟨s', hend, .inl ⟨hnil, hok⟩⟩
  · exact ⟨s', hend, .inr ⟨hne, hm⟩⟩

end Exact

theorem readexactly_of_le {r : StreamReader} {n : ℕ} (h : n ≤ r.length) :
    r.readexactly n = (.ok (r.take n), r.drop n) := if_pos h

theorem readexactly_of_lt {r : StreamReader} {n : ℕ} (h : r.length < n) :
    r.readexactly n = (.error r, []) := if_neg (by omega)

/-! ## One frame -/

section Agree

variable [PyFloat F] [Cbor F] {s : BinaryStream} {L : ℤ}

/-- What the two readers return for one frame. -/
inductive SameReply : Except (IpcError F) (Option (Dict F)) × BinaryStream →
    Except (IpcError F) (Option (Dict F)) × StreamReader → Prop
  | failed {e e' : IpcError F} {s' : BinaryStream} {r' : StreamReader}
      (h : e.errorClass = e'.errorClass) : SameReply (.error e, s') (.error e', r')
  | clean {s' : BinaryStream} {r' : StreamReader} : SameReply (.ok none, s') (.ok none, r')
  | message {m : Dict F} {s' : BinaryStream} : SameReply (.ok (some m), s') (.ok (some m), s'.rest)

theorem sameReply_decode (payload : Bytes) (s' : BinaryStream) :
    SameReply ((decodePayload payload L).map some, s')
      ((decodePayload payload L : Except (IpcError F) _).map some, s'.rest) := by
  rcases (decodePayload payload L : Except (IpcError F) (Dict F)) with e | m
  · exact .failed rfl
  · exact .message

/-- The readers answer alike, and go on with the same bytes. -/
theorem sameReply (L : ℤ) (s : BinaryStream) :
    SameReply (readBlocking L s : Except (IpcError F) _ × _) (readFrame L true s.rest) := by
  unfold readBlocking readFrame
  by_cases h4 : 4 ≤ s.rest.length
  · obtain ⟨s₁, hread, hs₁⟩ := readExact_of_le (F := F) h4
    have hlen : (s.rest.take 4).length = 4 := by
      rw [List.length_take]
      omega
    obtain ⟨c, header, hheader⟩ := List.exists_cons_of_length_eq_add_one hlen
    rw [hread, readexactly_of_le h4, ← hs₁]
    simp only [hheader]
    rw [← hheader, if_neg (by omega)]
    generalize fromBytes (s.rest.take 4) = length
    by_cases hL : L < length
    · rw [if_pos hL, if_pos hL]
      exact .failed rfl
    · rw [if_neg hL, if_neg hL]
      by_cases hle : length ≤ s₁.rest.length
      · obtain ⟨s₂, hread, hs₂⟩ := readExact_of_le (F := F) hle
        have hpay : (s₁.rest.take length).length = length := by
          rw [List.length_take]
          omega
        rw [hread, readexactly_of_le hle, ← hs₂]
        simp only
        rw [if_neg (by omega)]
        exact sameReply_decode _ s₂
      · rw [Nat.not_le] at hle
        rw [readexactly_of_lt hle]
        obtain ⟨s₂, -, ⟨-, hok⟩ | ⟨-, m, hm⟩⟩ := readExact_of_lt (F := F) hle
        · rw [hok]
          simp only [List.length_nil]
          rw [if_pos (by omega)]
          exact .failed rfl
        · rw [hm]
          exact .failed rfl
  · rw [Nat.not_le] at h4
    rw [readexactly_of_lt h4]
    obtain ⟨s₁, -, ⟨hnil, hok⟩ | ⟨hne, m, hm⟩⟩ := readExact_of_lt (F := F) h4
    · rw [hok, hnil]
      exact .clean
    · rw [hm]
      simp only [Bool.true_and, List.isEmpty_iff, hne, if_false]
      exact .failed rfl

/-- A message takes at least its header from the stream. -/
theorem length_of_readFrame {r r' : StreamReader} {m : Dict F}
    (h : readFrame L true r = (.ok (some m), r')) : r'.length < r.length := by
  unfold readFrame at h
  by_cases h4 : 4 ≤ r.length
  · rw [readexactly_of_le h4] at h
    simp only at h
    by_cases hL : L < fromBytes (r.take 4)
    · rw [if_pos hL] at h
      cases h
    rw [if_neg hL] at h
    by_cases hle : fromBytes (r.take 4) ≤ (r.drop 4).length
    · rw [readexactly_of_le hle] at h
      simp only [Prod.mk.injEq] at h
      rw [← h.2, List.length_drop, List.length_drop]
      omega
    · rw [readexactly_of_lt (by omega)] at h
      simp at h
  · rw [readexactly_of_lt (by omega)] at h
    simp only at h
    split_ifs at h
    · cases h
    · cases h

theorem drain_eq (n : ℕ) (s : BinaryStream) :
    drain (readBlocking L) n s = drain (readFrame L true : _ → Except (IpcError F) _ × _) n s.rest := by
  induction n generalizing s with
  | zero => rfl
  | succ n ih =>
    have hsame := sameReply (F := F) L s
    unfold drain
    generalize (readBlocking L s : Except (IpcError F) _ × _) = x at hsame
    generalize (readFrame L true s.rest : Except (IpcError F) _ × _) = y at hsame
    cases hsame with
    | failed h => simp only [h]
    | clean => rfl
    | message => simp only [ih]

/-- More reads than bytes reach the end, whatever their number. -/
theorem exists_drain (r : StreamReader) : ∃ messages last, ∀ n, r.length < n →
    drain (readFrame L true : _ → Except (IpcError F) _ × _) n r = some (messages, last) := by
  induction hr : r.length using Nat.strong_induction_on generalizing r with
  | _ k ih =>
    subst hr
    rcases hread : (readFrame L true r : Except (IpcError F) (Option (Dict F)) × StreamReader)
      with ⟨e | _ | m, r'⟩
    · refine ⟨[], .failed e.errorClass, fun n hn => ?_⟩
      obtain ⟨n, rfl⟩ := Nat.exists_eq_succ_of_ne_zero (show n ≠ 0 by omega)
      simp only [drain, hread]
    · refine ⟨[], .clean, fun n hn => ?_⟩
      obtain ⟨n, rfl⟩ := Nat.exists_eq_succ_of_ne_zero (show n ≠ 0 by omega)
      simp only [drain, hread]
    · have hlt := length_of_readFrame hread
      obtain ⟨messages, last, hrest⟩ := ih r'.length hlt r' rfl
      refine ⟨m :: messages, last, fun n hn => ?_⟩
      obtain ⟨n, rfl⟩ := Nat.exists_eq_succ_of_ne_zero (show n ≠ 0 by omega)
      simp only [drain, hread, hrest n (by omega), Option.map_some]

end Agree

/-! ## Streams of frames -/

theorem readBe_length (acc : ℕ) (b rest : Bytes) :
    Codec.readBe b.length acc (b ++ rest) =
      some (b.foldl (fun n c => n * 256 + c.toNat) acc, rest) := by
  induction b generalizing acc with
  | nil => rfl
  | cons c b ih => exact ih (acc * 256 + c.toNat)

theorem fromBytes_beBytes {n : ℕ} (h : n < 256 ^ 4) : fromBytes (Codec.beBytes 4 n) = n := by
  have hread := readBe_length 0 (Codec.beBytes 4 n) []
  have hlen : (Codec.beBytes 4 n).length = 4 := rfl
  rw [hlen, Codec.readBe_beBytes_lt h, Option.some.injEq, Prod.mk.injEq] at hread
  exact hread.1.symm

section Frames

variable [PyFloat F] [LawfulFloat F] [Cbor F] [PlainCbor F] {L : ℤ}

omit [LawfulFloat F] in
/-- What `decode_payload` raises is an `IPCError`. -/
theorem isIpcError_of_decodePayload {payload : Bytes} {e : IpcError F}
    (h : decodePayload payload L = .error e) : e.errorClass.isIpcError = true := by
  unfold decodePayload at h
  rcases bind_eq_error.1 h with h | ⟨_, -, h⟩
  · obtain ⟨-, rfl⟩ := raiseWhen_eq_error.1 h
    rfl
  rcases bind_eq_error.1 h with h | ⟨_, -, h⟩
  · obtain ⟨-, rfl⟩ := raiseWhen_eq_error.1 h
    rfl
  split at h
  · cases h
    rfl
  · rename_i value hloads
    rcases bind_eq_error.1 h with h | ⟨_, -, h⟩
    · obtain ⟨m, rfl⟩ := schema_of_validateValue h
      rfl
    · obtain ⟨b, hb⟩ := PlainCbor.dumps_ok _ (PlainCbor.loads_ok _ _ hloads).2
      rw [hb] at h
      rcases bind_eq_error.1 h with h | ⟨_, -, h⟩
      · obtain ⟨-, rfl⟩ := raiseWhen_eq_error.1 h
        rfl
      · cases h
  · cases h
    rfl

omit [LawfulFloat F] in
theorem isIpcError_of_readFrame {r r' : StreamReader} {e : IpcError F}
    (h : readFrame L true r = (.error e, r')) : e.errorClass.isIpcError = true := by
  unfold readFrame at h
  split at h
  · split_ifs at h <;> cases h
    rfl
  · split_ifs at h
    · cases h
      rfl
    · split at h
      · cases h
        rfl
      · rename_i payload _ _
        rcases hp : (decodePayload payload L : Except (IpcError F) (Dict F)) with e | m
        · rw [hp] at h
          cases h
          exact isIpcError_of_decodePayload hp
        · rw [hp] at h
          cases h

omit [LawfulFloat F] in
theorem isIpcError_of_drain {n : ℕ} {r : StreamReader} {messages : List (Dict F)} {c : ErrorClass}
    (h : drain (readFrame L true : _ → Except (IpcError F) _ × _) n r =
      some (messages, .failed c)) : c.isIpcError = true := by
  induction n generalizing r messages with
  | zero => cases h
  | succ n ih =>
    unfold drain at h
    split at h
    · rename_i hread
      cases h
      exact isIpcError_of_readFrame hread
    · cases h
    · obtain ⟨x, hx, he⟩ := Option.map_eq_some_iff.1 h
      obtain ⟨messages', last⟩ := x
      simp only [Prod.mk.injEq] at he
      rw [he.2] at hx
      exact ih hx

omit [LawfulFloat F] [PlainCbor F] in
/-- A frame in front of a stream is read. -/
theorem readFrame_frame {frame rest : Bytes} {w : Dict F} (h : decodeFrame frame L = .ok w) :
    readFrame L true (frame ++ rest) = (.ok (some w), rest) := by
  obtain ⟨payload, rfl, hlt, hp⟩ := decodeFrame_eq_ok.1 h
  have hle := (decodePayload_eq_ok.1 hp).2.1
  have hheader : fromBytes (Codec.beBytes 4 payload.length) = payload.length :=
    fromBytes_beBytes hlt
  have h4 : (Codec.beBytes 4 payload.length).length = 4 := rfl
  generalize Codec.beBytes 4 payload.length = header at hheader h4
  unfold readFrame
  rw [readexactly_of_le (by rw [List.length_append, List.length_append]; omega), List.append_assoc]
  simp only
  rw [← h4, List.take_left, List.drop_left, hheader, if_neg (by omega),
    readexactly_of_le (by rw [List.length_append]; omega), List.take_left, List.drop_left]
  simp only [hp, Except.map]

/-- The frames of a list of messages are read as the list, up to a clean end. -/
theorem drain_frames {messages : List (Val F)} {frames : List Bytes}
    (hm : ∀ m ∈ messages, m.wellFormed = true)
    (h : messages.mapM (fun m => encodeFrame m L) = .ok frames) :
    ∃ read, List.Forall₂ (fun m w => Val.eq m (.dict w) = true) messages read ∧
      ∀ n, messages.length < n →
        drain (readFrame L true : _ → Except (IpcError F) _ × _) n frames.flatten =
          some (read, .clean) := by
  have hall := mapM_eq_ok.1 h
  clear h
  induction hall with
  | nil =>
    refine ⟨[], .nil, fun n hn => ?_⟩
    obtain ⟨n, rfl⟩ := Nat.exists_eq_succ_of_ne_zero (show n ≠ 0 by omega)
    rfl
  | cons hframe _ ih =>
    rw [List.forall_mem_cons] at hm
    obtain ⟨w, hw, heq⟩ := decodeFrame_of_encodeFrame hm.1 hframe
    obtain ⟨read, hread, hdrain⟩ := ih hm.2
    refine ⟨w :: read, .cons heq hread, fun n hn => ?_⟩
    obtain ⟨n, rfl⟩ := Nat.exists_eq_succ_of_ne_zero (show n ≠ 0 by omega)
    rw [List.length_cons] at hn
    rw [drain, List.flatten_cons, readFrame_frame hw]
    simp only [hdrain n (by omega), Option.map_some]

/-- Over one byte stream, in whatever pieces the blocking reads return it, `_read_blocking` and
`read_frame` yield the same messages and end alike: cleanly, or with one class of `IPCError`.  Over
the frames of a list of messages they yield that list and end cleanly. -/
theorem readers_agree (L : ℤ) (stream : Bytes) (pieces : ℕ → ℕ) :
    (∃ (messages : List (Dict F)) (last : StreamEnd),
      (∀ n, stream.length < n → drain (readBlocking L) n ⟨stream, pieces⟩ = some (messages, last) ∧
        drain (readFrame L true) n stream = some (messages, last)) ∧
      ∀ c, last = .failed c → c.isIpcError = true) ∧
    ∀ (messages : List (Val F)) (frames : List Bytes), (∀ m ∈ messages, m.wellFormed = true) →
      messages.mapM (fun m => encodeFrame m L) = .ok frames → stream = frames.flatten →
      ∃ read, List.Forall₂ (fun m w => Val.eq m (.dict w) = true) messages read ∧
        ∀ n, messages.length < n → drain (readBlocking L) n ⟨stream, pieces⟩ = some (read, .clean) ∧
          drain (readFrame L true) n stream = some (read, .clean) := by
  constructor
  · obtain ⟨messages, last, hdrain⟩ := exists_drain (F := F) (L := L) stream
    refine ⟨messages, last, fun n hn => ⟨?_, hdrain n hn⟩, ?_⟩
    · rw [drain_eq]
      exact hdrain n hn
    · rintro c rfl
      exact isIpcError_of_drain (hdrain (stream.length + 1) (Nat.lt_succ_self _))
  · rintro messages frames hm hframes rfl
    obtain ⟨read, hread, hdrain⟩ := drain_frames hm hframes
    refine ⟨read, hread, fun n hn => ⟨?_, hdrain n hn⟩⟩
    rw [drain_eq]
    exact hdrain n hn

end Frames

section Demo

local instance readersCodec : Cbor ℚ := strictCodec

local instance readersPlain : PlainCbor ℚ := plainCbor_strictCodec

/-- Two messages, read back one byte at a time. -/
theorem readers_agree_demo : ∃ (frames : List Bytes) (read : List (Dict ℚ)),
    [demoMessage, demoMessage].mapM (fun m => encodeFrame m 128) = .ok frames ∧
    List.Forall₂ (fun m w => Val.eq m (.dict w) = true) [demoMessage, demoMessage] read ∧
    drain (readBlocking 128) 3 ⟨frames.flatten, fun _ => 0⟩ = some (read, .clean) := by
  have hok : ([demoMessage, demoMessage].mapM fun m => encodeFrame m 128).isOk = true := by
    decide +kernel
  obtain ⟨frames, hframes⟩ := exists_of_isOk hok
  have hwell : ∀ m ∈ [demoMessage, demoMessage], m.wellFormed = true := by decide +kernel
  obtain ⟨read, hread, hdrain⟩ := (readers_agree (F := ℚ) 128 frames.flatten fun _ => 0).2
    [demoMessage, demoMessage] frames hwell hframes rfl
  exact ⟨frames, read, hframes, hread, (hdrain 3 (by decide)).1⟩

end Demo

end RemoteRobot.Ipc
