import RemoteRobot.Stream.Chunks
import RemoteRobot.Stream.Client

/-!
# The two validations of a program

`validate_points` of the client reads the whole list, `append_chunk` of the server a chunk after
the other, with the points it has.  Both come to the same conditions on the whole list: those of
the points, of their neighbours, of the first, and of the count and the end, which grow with the
list.  So they agree however `split_chunks` cuts it.
-/

namespace RemoteRobot.Stream

open Py Except

variable {F : Type}

/-! ## Chunks -/

/-- `split_chunks` -/
def splitChunks (points : List (TrajectoryPoint F)) (chunkPoints : ℕ) :
    List (List (TrajectoryPoint F)) :=
  (List.range ((points.length + chunkPoints - 1) / chunkPoints)).map fun j =>
    (points.drop (j * chunkPoints)).take chunkPoints

theorem flatten_splitChunks {k : ℕ} (hk : 0 < k) (points : List (TrajectoryPoint F)) :
    (splitChunks points k).flatten = points := by
  have htake : ∀ n, ((List.range n).map fun j => (points.drop (j * k)).take k).flatten =
      points.take (n * k) := by
    intro n
    induction n with
    | zero => simp
    | succ n ih =>
      rw [List.range_succ, List.map_append, List.flatten_append, ih, Nat.succ_mul, List.take_add]
      simp
  unfold splitChunks
  rw [htake]
  refine List.take_of_length_le ?_
  have hlt := Nat.lt_div_mul_add hk (a := points.length + k - 1)
  omega

theorem mem_splitChunks {k : ℕ} (hk : 0 < k) {points c : List (TrajectoryPoint F)}
    (hc : c ∈ splitChunks points k) : c ≠ [] ∧ c.length ≤ k := by
  obtain ⟨j, hj, rfl⟩ := List.mem_map.1 hc
  have hlt : j * k < points.length := by
    have hmul := Nat.mul_le_of_le_div k (j + 1) _ (List.mem_range.1 hj)
    rw [Nat.succ_mul] at hmul
    omega
  refine ⟨fun hnil => ?_, by rw [List.length_take]; exact Nat.min_le_left _ _⟩
  have hlen := congrArg List.length hnil
  rw [List.length_take, List.length_drop, List.length_nil] at hlen
  omega

theorem splitChunks_ne_nil {k : ℕ} (hk : 0 < k) {points : List (TrajectoryPoint F)}
    (h : points ≠ []) : splitChunks points k ≠ [] := by
  intro hnil
  have hflat := flatten_splitChunks hk points
  rw [hnil] at hflat
  exact h hflat.symm

section Policy

variable [PyFloat F]

/-! ## The conditions on a program -/

/-- A point a program can start with. -/
def FirstOk (header : ProgramHeader) (p : TrajectoryPoint F) : Prop :=
  p.tUs = 0 ∧ ¬(header.coordinateMode = .relativeDeg ∧
    joints.any (fun j => PyFloat.lt (PyFloat.lit 1e-9) (PyFloat.abs (p.qDeg j))) = true)

/-- A beginning of a program inside the policy. -/
structure Admitted (header : ProgramHeader) (policy : SafetyPolicy F)
    (points : List (TrajectoryPoint F)) : Prop where
  first : ∀ p ∈ points.head?, FirstOk header p
  positions : ∀ p ∈ points, policy.validatePosition p header.coordinateMode = .ok ()
  segments : points.IsChain (ProgramRun.SegmentOk policy)
  count : points.length ≤ policy.maxPoints
  duration : ∀ p ∈ points.getLast?, p.tUs ≤ policy.maxDurationUs

variable {header : ProgramHeader} {policy : SafetyPolicy F} {points : List (TrajectoryPoint F)}

/-- The times of a program do not decrease. -/
theorem tUs_le_getLast? (h : points.IsChain (ProgramRun.SegmentOk policy))
    {p last : TrajectoryPoint F} (hp : p ∈ points) (hlast : last ∈ points.getLast?) :
    p.tUs ≤ last.tUs := by
  obtain ⟨i, hi, rfl⟩ := List.getElem_of_mem hp
  rw [List.getLast?_eq_getElem?] at hlast
  exact ProgramRun.tUs_le_of_chain h (Nat.le_sub_one_of_lt hi) (List.getElem?_eq_getElem hi) hlast

theorem head?_tUs_le (h : points.IsChain (ProgramRun.SegmentOk policy))
    {p first : TrajectoryPoint F} (hp : p ∈ points) (hfirst : first ∈ points.head?) :
    first.tUs ≤ p.tUs := by
  obtain ⟨i, hi, rfl⟩ := List.getElem_of_mem hp
  rw [List.head?_eq_getElem?] at hfirst
  exact ProgramRun.tUs_le_of_chain h (Nat.zero_le i) hfirst (List.getElem?_eq_getElem hi)

theorem admitted_nil : Admitted header policy [] where
  first p hp := by cases hp
  positions p hp := by cases hp
  segments := .nil
  count := Nat.zero_le _
  duration p hp := by cases hp

/-- Every part from the start on is admitted. -/
theorem Admitted.of_append {before added : List (TrajectoryPoint F)}
    (h : Admitted header policy (before ++ added)) : Admitted header policy before where
  first p hp := h.first p (by rw [List.head?_append, hp]; rfl)
  positions p hp := h.positions p (List.mem_append_left _ hp)
  segments := h.segments.left_of_append
  count := by
    have hcount := h.count
    rw [List.length_append] at hcount
    omega
  duration p hp := by
    cases hlast : (before ++ added).getLast? with
    | none =>
      rw [List.getLast?_eq_none_iff, List.append_eq_nil_iff] at hlast
      rw [hlast.1] at hp
      cases hp
    | some last =>
      have hmem := List.mem_append_left added (List.mem_of_getLast? hp)
      exact (tUs_le_getLast? h.segments hmem hlast).trans (h.duration last hlast)

/-! ## The client -/

/-- The client accepts the admitted lists of two points or more. -/
theorem validatePoints_iff_admitted : validatePoints header points policy true = .ok () ↔
    Admitted header policy points ∧ 2 ≤ points.length := by
  cases points with
  | nil => exact ⟨fun h => (by cases h), fun h => absurd h.2 (Nat.not_le.2 Nat.zero_lt_two)⟩
  | cons first rest =>
    simp only [validatePoints, bind_eq_ok, exists_unit, raiseWhen_eq_ok, validateEach_eq_ok, not_lt,
      not_not, true_and, Option.toList_none, List.nil_append]
    constructor
    · rintro ⟨hcount, htime, hstart, ⟨heach, hchain⟩, htwo⟩
      refine ⟨⟨fun p hp => ?_, fun p hp => (heach p hp).2.2, hchain, hcount, fun p hp => ?_⟩, htwo⟩
      · cases hp
        exact ⟨htime, hstart⟩
      · exact (heach p (List.mem_of_getLast? hp)).2.1
    · rintro ⟨h, htwo⟩
      obtain ⟨htime, hstart⟩ := h.first first rfl
      have hlast := List.getLast?_eq_some_getLast (List.cons_ne_nil first rest)
      refine ⟨h.count, htime, hstart, ⟨fun p hp => ⟨?_, ?_, h.positions p hp⟩, h.segments⟩, htwo⟩
      · exact htime ▸ head?_tUs_le h.segments hp rfl
      · exact (tUs_le_getLast? h.segments hp hlast).trans (h.duration _ hlast)

end Policy

/-! ## The server -/

namespace ProgramRun

variable [PyFloat F] {r : ProgramRun F}

theorem validateFirst_eq_ok {p : TrajectoryPoint F} :
    r.validateFirst p = .ok () ↔ FirstOk r.header p := by
  simp only [validateFirst, bind_eq_ok, exists_unit, raiseWhen_eq_ok, not_not, FirstOk]

/-- A sealed run that waits for the chunk `chunkSeq`. -/
structure Awaiting (r : ProgramRun F) (chunkSeq : ℕ) : Prop where
  mode : r.runMode = .sealed
  state : r.state = .buffering
  expected : r.expectedChunkSeq = chunkSeq
  not_final : r.finalReceived = false
  origin : r.originQ = none
  receipts : ∀ k : ℕ, chunkSeq ≤ k → r.chunkReceipts.get k = none
  points : Admitted r.header r.policy r.points

/-- The loop over the points of a chunk checks what they add to the points before. -/
theorem validatePoints_iff_admitted (hbefore : Admitted r.header r.policy r.points)
    (horigin : r.originQ = none) (added : List (TrajectoryPoint F)) :
    r.validatePoints r.points.getLast? added = .ok () ↔
      (∀ p ∈ (r.points ++ added).head?, FirstOk r.header p) ∧
      (∀ p ∈ r.points ++ added, r.policy.validatePosition p r.header.coordinateMode = .ok ()) ∧
      (r.points ++ added).IsChain (SegmentOk r.policy) := by
  have hresolved : ∀ p, r.validateResolvedPosition p = .ok () := fun p =>
    validateResolvedPosition_eq_ok.2 fun _ origin ho => by rw [horigin] at ho; cases ho
  have hchain : (r.points.getLast?.toList ++ added).IsChain (SegmentOk r.policy) ↔
      (r.points ++ added).IsChain (SegmentOk r.policy) := by
    rw [List.isChain_append, List.isChain_append]
    have hlast : r.points.getLast?.toList.getLast? = r.points.getLast? := by
      cases r.points.getLast? <;> rfl
    have hone : r.points.getLast?.toList.IsChain (SegmentOk r.policy) := by
      cases r.points.getLast? <;> simp
    rw [hlast]
    exact and_congr_left fun _ => iff_of_true hone hbefore.segments
  have hpositions : (∀ p ∈ added, r.PointOk p) ↔ ∀ p ∈ r.points ++ added,
      r.policy.validatePosition p r.header.coordinateMode = .ok () := by
    simp only [PointOk, hresolved, and_true, List.mem_append, or_imp, forall_and]
    exact ⟨fun h => ⟨hbefore.positions, h⟩, And.right⟩
  have hfirst : (r.points.getLast? = none → ∀ p ∈ added.head?, r.validateFirst p = .ok ()) ↔
      ∀ p ∈ (r.points ++ added).head?, FirstOk r.header p := by
    simp only [validateFirst_eq_ok, List.getLast?_eq_none_iff]
    cases hpoints : r.points with
    | nil => simp
    | cons first rest =>
      have hok := hbefore.first first (by rw [hpoints]; rfl)
      simpa using hok
  rw [validatePoints_eq_ok, hpositions, hchain, hfirst]
  tauto

omit [PyFloat F] in
theorem acceptedUntilUs_extend_eq {c : Chunk F} {last : TrajectoryPoint F}
    (hlast : last ∈ (r.points ++ c.points).getLast?) : (r.extend c).acceptedUntilUs = last.tUs := by
  unfold acceptedUntilUs extend
  simp only
  rw [hlast]

/-- The checks of a chunk are those of the points with it. -/
theorem Awaiting.chunkOk_iff {chunkSeq : ℕ} (h : r.Awaiting chunkSeq) {c : Chunk F}
    (hseq : c.chunkSeq = chunkSeq) (hne : c.points ≠ [])
    (hlen : c.points.length ≤ r.policy.maxChunkPoints) : r.ChunkOk c ↔
      Admitted r.header r.policy (r.points ++ c.points) ∧
      (c.final = true → 2 ≤ (r.points ++ c.points).length) := by
  obtain ⟨last, hlast⟩ : ∃ last, last ∈ (r.points ++ c.points).getLast? :=
    ⟨_, List.getLast?_eq_some_getLast (List.append_ne_nil_of_right_ne_nil _ hne)⟩
  have huntil := acceptedUntilUs_extend_eq hlast
  have hpoints := validatePoints_iff_admitted h.points h.origin c.points
  rw [List.length_append]
  constructor
  · intro hok
    obtain ⟨hfirst, hpositions, hchain⟩ := hpoints.1 hok.points
    refine ⟨⟨hfirst, hpositions, hchain, ?_, fun p hp => ?_⟩, hok.complete⟩
    · rw [List.length_append]
      exact hok.count
    · obtain rfl := Option.some.inj (hlast.symm.trans hp)
      exact huntil ▸ hok.duration
  · rintro ⟨hadmitted, htwo⟩
    refine ⟨hseq.trans h.expected.symm, .inl h.state, h.not_final, hne, hlen,
      hpoints.2 ⟨hadmitted.first, hadmitted.positions, hadmitted.segments⟩, ?_, ?_, htwo, ?_⟩
    · have hcount := hadmitted.count
      rwa [List.length_append] at hcount
    · rw [huntil]
      exact hadmitted.duration last hlast
    · intro hmode
      rw [h.mode] at hmode
      cases hmode

section Upload

variable [FloatRepr F] [Sha256]

/-- The chunks sent in order from `chunkSeq` on, each with its digest, the last one final; the first
refusal ends it. -/
def upload (r : ProgramRun F) (chunkSeq : ℕ) : List (List (TrajectoryPoint F)) →
    Except (Raised F) (ProgramRun F)
  | [] => .ok r
  | points :: chunks => match chunkDigest chunkSeq points chunks.isEmpty with
    | .error e => .error (.builtin e)
    | .ok digest => match r.appendChunk ⟨chunkSeq, points, chunks.isEmpty, digest⟩ with
      | (.error e, _) => .error e
      | (.ok _, r') => upload r' (chunkSeq + 1) chunks

omit [PyFloat F] in
theorem compareDigest_chunkDigest {chunkSeq : ℤ} {points : List (TrajectoryPoint F)} {final : Bool}
    {digest : Str} (h : chunkDigest chunkSeq points final = .ok digest) :
    compareDigest digest digest = .ok true := by
  unfold chunkDigest at h
  obtain ⟨_, -, h⟩ := bind_eq_ok.1 h
  cases h
  exact compareDigest_eq_ok.2 ⟨hexdigest_lt _, hexdigest_lt _, beq_self_eq_true _⟩

/-- A chunk with its own digest that passes every check. -/
theorem appendChunk_of_chunkOk {c : Chunk F}
    (hdigest : chunkDigest c.chunkSeq c.points c.final = .ok c.digest)
    (hnew : r.chunkReceipts.get c.chunkSeq = none) (hok : r.ChunkOk c)
    (hmatch : c.final = true → (r.extend c).digestMatches = .ok true) :
    ∃ receipt r', r.appendChunk c = (.ok receipt, r') := by
  unfold appendChunk appendNew
  simp only [hdigest, compareDigest_chunkDigest hdigest, hnew, validateChunk_eq_ok.2 hok]
  split_ifs with hfinal
  · rw [hmatch hfinal]
    exact ⟨_, _, rfl⟩
  · exact ⟨_, _, rfl⟩

/-- A receipt for a new sequence number is that of an accepted chunk. -/
theorem Awaiting.accepted {chunkSeq : ℕ} (h : r.Awaiting chunkSeq) {c : Chunk F} {receipt : Receipt}
    {r' : ProgramRun F} (hseq : c.chunkSeq = chunkSeq) (hc : r.appendChunk c = (.ok receipt, r')) :
    r.ChunkOk c ∧ r'.toRunConfig = r.toRunConfig ∧ r'.points = r.points ++ c.points ∧
      (Admitted r.header r.policy (r.points ++ c.points) → c.final = false →
        r'.Awaiting (chunkSeq + 1)) := by
  have hnew : r.chunkReceipts.get c.chunkSeq = none := hseq ▸ h.receipts chunkSeq le_rfl
  have happended := appendChunk_appended r c
  generalize r.appendChunk c = x at happended hc
  cases happended with
  | raised | stuck => cases hc
  | repeated _ hold =>
    rw [hnew] at hold
    cases hold
  | accepted _ hok =>
    cases hc
    refine ⟨hok, rfl, rfl, fun hadmitted hfinal => ⟨h.mode, h.state, ?_, hfinal, h.origin,
      fun k hk => ?_, hadmitted⟩⟩
    · show r.expectedChunkSeq + 1 = _
      rw [h.expected]
      rfl
    · show Table.get (r.chunkReceipts.insert c.chunkSeq _) k = none
      rw [Table.get_insert, if_neg (by omega)]
      exact h.receipts k (by omega)

/-- An upload starts with its first chunk. -/
theorem upload_cons {chunkSeq : ℕ} {points : List (TrajectoryPoint F)} {digest : Str}
    {chunks : List (List (TrajectoryPoint F))}
    (hdigest : chunkDigest chunkSeq points chunks.isEmpty = .ok digest) {s : ProgramRun F} :
    r.upload chunkSeq (points :: chunks) = .ok s ↔ ∃ receipt r',
      r.appendChunk ⟨chunkSeq, points, chunks.isEmpty, digest⟩ = (.ok receipt, r') ∧
      r'.upload (chunkSeq + 1) chunks = .ok s := by
  rw [upload, hdigest]
  simp only
  generalize r.appendChunk ⟨chunkSeq, points, chunks.isEmpty, digest⟩ = x
  obtain ⟨_ | receipt, r'⟩ := x
  · simp
  · simp

theorem Awaiting.upload_last {chunkSeq : ℕ} (h : r.Awaiting chunkSeq)
    {points : List (TrajectoryPoint F)} (hne : points ≠ [])
    (hlen : points.length ≤ r.policy.maxChunkPoints)
    (hdigest : programDigest r.header (r.points ++ points) = .ok r.expectedDigest) :
    (∃ s, r.upload chunkSeq [points] = .ok s) ↔
      Admitted r.header r.policy (r.points ++ points) ∧ 2 ≤ (r.points ++ points).length := by
  obtain ⟨digest, hchunk⟩ := exists_chunkDigest (F := F) chunkSeq points
    ([] : List (List (TrajectoryPoint F))).isEmpty
  have hiff := h.chunkOk_iff (c := ⟨chunkSeq, points, true, digest⟩) rfl hne hlen
  constructor
  · rintro ⟨s, hs⟩
    obtain ⟨receipt, r', hc, -⟩ := (upload_cons hchunk).1 hs
    obtain ⟨hadmitted, htwo⟩ := hiff.1 (h.accepted rfl hc).1
    exact ⟨hadmitted, htwo rfl⟩
  · rintro ⟨hadmitted, htwo⟩
    have hmatch : (r.extend ⟨chunkSeq, points, true, digest⟩).digestMatches = .ok true := by
      unfold digestMatches
      exact bind_eq_ok.2 ⟨_, hdigest, compareDigest_eq_ok.2
        ⟨lt_of_programDigest hdigest, lt_of_programDigest hdigest, beq_self_eq_true _⟩⟩
    obtain ⟨receipt, r', hc⟩ := appendChunk_of_chunkOk (c := ⟨chunkSeq, points, true, digest⟩)
      hchunk (h.receipts chunkSeq le_rfl) (hiff.2 ⟨hadmitted, fun _ => htwo⟩) fun _ => hmatch
    exact ⟨r', (upload_cons hchunk).2 ⟨receipt, r', hc, rfl⟩⟩

/-- An upload of the rest of a program succeeds where the whole is admitted. -/
theorem Awaiting.upload_iff {chunkSeq : ℕ} (h : r.Awaiting chunkSeq)
    {chunks : List (List (TrajectoryPoint F))} (hne : chunks ≠ [])
    (hsizes : ∀ points ∈ chunks, points ≠ [] ∧ points.length ≤ r.policy.maxChunkPoints)
    (hdigest : programDigest r.header (r.points ++ chunks.flatten) = .ok r.expectedDigest) :
    (∃ s, r.upload chunkSeq chunks = .ok s) ↔
      Admitted r.header r.policy (r.points ++ chunks.flatten) ∧
      2 ≤ (r.points ++ chunks.flatten).length := by
  induction chunks generalizing r chunkSeq with
  | nil => exact absurd rfl hne
  | cons points chunks ih =>
    obtain ⟨⟨hpoints, hlen⟩, hrest⟩ := List.forall_mem_cons.1 hsizes
    by_cases hlast : chunks = []
    · subst hlast
      simp only [List.flatten_cons, List.flatten_nil, List.append_nil] at hdigest ⊢
      exact h.upload_last hpoints hlen hdigest
    obtain ⟨digest, hchunk⟩ := exists_chunkDigest (F := F) chunkSeq points chunks.isEmpty
    have hfinal : chunks.isEmpty = false := List.isEmpty_eq_false_iff.2 hlast
    have hiff := h.chunkOk_iff (c := ⟨chunkSeq, points, chunks.isEmpty, digest⟩) rfl hpoints hlen
    rw [List.flatten_cons, ← List.append_assoc] at hdigest ⊢
    -- what is left behind the first chunk
    have hbehind : ∀ receipt r',
        r.appendChunk ⟨chunkSeq, points, chunks.isEmpty, digest⟩ = (.ok receipt, r') →
        ((∃ s, r'.upload (chunkSeq + 1) chunks = .ok s) ↔
          Admitted r.header r.policy (r.points ++ points ++ chunks.flatten) ∧
          2 ≤ (r.points ++ points ++ chunks.flatten).length) := by
      intro receipt r' hc
      obtain ⟨hok, hcfg, hadded, hawait⟩ := h.accepted rfl hc
      have hih := ih (hawait (hiff.1 hok).1 hfinal) hlast (by rw [hcfg]; exact hrest)
        (by rw [hcfg, hadded]; exact hdigest)
      rw [hcfg, hadded] at hih
      exact hih
    constructor
    · rintro ⟨s, hs⟩
      obtain ⟨receipt, r', hc, hr'⟩ := (upload_cons hchunk).1 hs
      exact (hbehind receipt r' hc).1 ⟨s, hr'⟩
    · intro hall
      have hok := hiff.2 ⟨hall.1.of_append, fun hf => by rw [hfinal] at hf; cases hf⟩
      obtain ⟨receipt, r', hc⟩ := appendChunk_of_chunkOk
        (c := ⟨chunkSeq, points, chunks.isEmpty, digest⟩) hchunk (h.receipts chunkSeq le_rfl) hok
        fun hf => by rw [hfinal] at hf; cases hf
      obtain ⟨s, hs⟩ := (hbehind receipt r' hc).2 hall
      exact ⟨s, (upload_cons hchunk).2 ⟨receipt, r', hc, hs⟩⟩

/-- A fresh sealed run accepts all chunks of a program, in order and with their digests, where
`validate_points` accepts the program, whatever the size of the chunks. -/
theorem validatePoints_iff_upload (cfg : RunConfig F) (now : F) (points : List (TrajectoryPoint F))
    (chunkPoints : ℕ) (hmode : cfg.runMode = .sealed) (hne : points ≠ [])
    (hsize : 1 ≤ chunkPoints ∧ chunkPoints ≤ cfg.policy.maxChunkPoints)
    (hdigest : programDigest cfg.header points = .ok cfg.expectedDigest) :
    Stream.validatePoints cfg.header points cfg.policy true = .ok () ↔
      ∃ s, (init cfg now).upload 0 (splitChunks points chunkPoints) = .ok s := by
  have hflatten := flatten_splitChunks hsize.1 points
  have hawait : (init cfg now).Awaiting 0 :=
    ⟨hmode, rfl, rfl, rfl, rfl, fun k _ => rfl, admitted_nil⟩
  have hiff := hawait.upload_iff (splitChunks_ne_nil hsize.1 hne)
    (fun c hc => ⟨(mem_splitChunks hsize.1 hc).1, (mem_splitChunks hsize.1 hc).2.trans hsize.2⟩)
    (by rw [hflatten]; exact hdigest)
  rw [hiff, hflatten]
  exact Stream.validatePoints_iff_admitted

end Upload

end ProgramRun

/-! ## The demo program in chunks of two -/

section Demo

open ProgramRun

local instance splitHash : Sha256 := lengthHash

theorem validatePoints_iff_upload_demo : ∃ digest s,
    programDigest demoHeader demoPoints = .ok digest ∧
    (init (demoConfig .sealed digest) 0).upload 0 (splitChunks demoPoints 2) = .ok s := by
  obtain ⟨digest, hdigest⟩ := exists_programDigest (show encodable demoHeader.programId = true by
    decide) demoPoints
  have hvalid : (validatePoints demoHeader demoPoints SafetyPolicy.default true).isOk = true := by
    decide +kernel
  obtain ⟨⟨⟩, hok⟩ := exists_of_isOk hvalid
  have hsize : 1 ≤ 2 ∧ 2 ≤ (demoConfig .sealed digest).policy.maxChunkPoints :=
    ⟨by omega, show 2 ≤ 512 by omega⟩
  obtain ⟨s, hs⟩ := (validatePoints_iff_upload (demoConfig .sealed digest) 0 demoPoints 2 rfl
    (List.cons_ne_nil _ _) hsize hdigest).1 hok
  exact ⟨digest, s, hdigest, hs⟩

end Demo

end RemoteRobot.Stream
