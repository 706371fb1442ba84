import RemoteRobot.Stream.Stages

/-!
# The chunk buffer

`append_chunk` over whole runs: the points are the accepted chunks in the order of their sequence
numbers, a repeated chunk gets its first receipt, a refused call changes nothing, and a streaming
run never holds more than its horizon ahead of the cursor.

All of it rests on the last comparison of `append_chunk`, that of the digest of the whole program:
it stands behind the change of the points, and its exceptions are not rolled back.  `Clean` says
that a call does not reach it with a program whose digest cannot be compared.
-/

namespace RemoteRobot.Stream

open Py Except

variable {F : Type}

/-- The digest of the program exists and can be compared with the expected one. -/
def RunConfig.Comparable (cfg : RunConfig F) : Prop :=
  encodable cfg.header.programId = true ∧ ∀ c ∈ cfg.expectedDigest, c < 128

instance (cfg : RunConfig F) : Decidable cfg.Comparable :=
  inferInstanceAs (Decidable (_ ∧ _))

namespace ProgramRun

variable [PyFloat F] [FloatRepr F] [Sha256] {r r' : ProgramRun F}

/-! ## The comparison of the whole program -/

omit [PyFloat F] in
/-- The comparison raises for exactly the programs that are not comparable. -/
theorem digestMatches_isOk (r : ProgramRun F) :
    (∃ b, r.digestMatches = .ok b) ↔ r.Comparable := by
  unfold digestMatches
  constructor
  · rintro ⟨b, h⟩
    obtain ⟨digest, hdigest, h⟩ := bind_eq_ok.1 h
    exact ⟨encodable_of_programDigest hdigest, (compareDigest_eq_ok.1 h).2.1⟩
  · rintro ⟨hid, hexpected⟩
    obtain ⟨digest, hdigest⟩ := exists_programDigest hid r.points
    refine ⟨digest == r.expectedDigest, ?_⟩
    rw [hdigest]
    exact compareDigest_eq_ok.2 ⟨lt_of_programDigest hdigest, hexpected, rfl⟩

omit [PyFloat F] in
theorem programDigest_of_matches (h : r.digestMatches = .ok true) :
    programDigest r.header r.points = .ok r.expectedDigest := by
  unfold digestMatches at h
  obtain ⟨digest, hdigest, h⟩ := bind_eq_ok.1 h
  rw [hdigest, compareDigest_eq_true h]

/-- A call whose chunk passes every check before the comparison of the whole program. -/
def ReachesDigest (r : ProgramRun F) (c : Chunk F) : Prop :=
  c.final = true ∧ r.NewChunk c ∧ r.ChunkOk c

variable [FloatTrunc F]

/-- The step is no call that compares the digest of a program that is not comparable. -/
def Clean (r : ProgramRun F) : Label F → Prop
  | .append c => r.ReachesDigest c → r.Comparable
  | _ => True

/-! ## One call -/

omit [PyFloat F] [FloatRepr F] [Sha256] [FloatTrunc F] in
/-- The four fields `append_chunk` is about. -/
structure SameBuffer (r r' : ProgramRun F) : Prop where
  points : r'.points = r.points
  expectedChunkSeq : r'.expectedChunkSeq = r.expectedChunkSeq
  finalReceived : r'.finalReceived = r.finalReceived
  chunkReceipts : r'.chunkReceipts = r.chunkReceipts

omit [FloatTrunc F] in
/-- A call that reaches the comparison of a program that is not comparable changes the points and
raises. -/
theorem appendChunk_of_reaches {c : Chunk F} (h : r.ReachesDigest c) (hnot : ¬r.Comparable) :
    ∃ e, r.appendChunk c = (.error e, r.extend c) := by
  obtain ⟨hfinal, ⟨⟨digest, hdigest, hsupplied⟩, hnew⟩, hok⟩ := h
  cases hmatch : (r.extend c).digestMatches with
  | ok b => exact absurd ((digestMatches_isOk _).1 ⟨b, hmatch⟩) hnot
  | error e =>
    refine ⟨.builtin e, ?_⟩
    unfold appendChunk appendNew
    simp only [hdigest, hsupplied, hnew, validateChunk_eq_ok.2 hok]
    rw [if_pos hfinal, hmatch]

omit [FloatTrunc F] in
/-- Every raising call leaves the buffer as it was if and only if the call is clean. -/
theorem append_unchanged_iff (r : ProgramRun F) (c : Chunk F) :
    (∀ e, (r.appendChunk c).1 = .error e → r.SameBuffer (r.appendChunk c).2) ↔
      r.Clean (.append c) := by
  constructor
  · intro h hreaches
    by_contra hnot
    obtain ⟨e, he⟩ := appendChunk_of_reaches hreaches hnot
    have hpoints := (h e (by rw [he])).points
    rw [he] at hpoints
    have hnil : c.points = [] := List.append_right_eq_self.1 hpoints
    exact hreaches.2.2.nonempty hnil
  · intro hclean e he
    have hx := appendChunk_appended r c
    generalize r.appendChunk c = x at hx he
    cases hx with
    | raised => exact ⟨rfl, rfl, rfl, rfl⟩
    | repeated => cases he
    | accepted => cases he
    | stuck hnew hok hfinal hmatch =>
      obtain ⟨b, hb⟩ := (digestMatches_isOk (r.extend c)).2 (hclean ⟨hfinal, hnew, hok⟩)
      rw [hmatch] at hb
      cases hb

/-! ## The accepted chunks of a run -/

/-- Whether a call is the first with its sequence number to get a receipt. -/
def acceptsChunk (r : ProgramRun F) (c : Chunk F) : Option (Chunk F × Receipt) :=
  match r.chunkReceipts.get c.chunkSeq, (r.appendChunk c).1 with
  | none, .ok receipt => some (c, receipt)
  | _, _ => none

/-- The chunk a step accepts, with its receipt. -/
def accepts (r : ProgramRun F) : Label F → Option (Chunk F × Receipt)
  | .append c => r.acceptsChunk c
  | _ => none

/-- The chunks accepted along the steps `ls`. -/
def accepted : ProgramRun F → List (Label F) → List (Chunk F × Receipt)
  | _, [] => []
  | r, l :: ls => (r.accepts l).toList ++ match r.step l with
    | some r' => accepted r' ls
    | none => []

/-- What the fields of a run say about the chunks it accepted. -/
structure Ledger (r : ProgramRun F) (cs : List (Chunk F × Receipt)) : Prop where
  points : r.points = (cs.map fun e => e.1.points).flatten
  seqs : cs.map (fun e => e.1.chunkSeq) = (List.range cs.length).map Nat.cast
  expected : r.expectedChunkSeq = cs.length
  /-- the receipts on file are those given -/
  receipts : ∀ k digest receipt, r.chunkReceipts.get k = some (digest, receipt) ↔
    ∃ c, (c, receipt) ∈ cs ∧ c.chunkSeq = k ∧
      chunkDigest c.chunkSeq c.points c.final = .ok digest
  supplied : ∀ e ∈ cs, ∃ digest, chunkDigest e.1.chunkSeq e.1.points e.1.final = .ok digest ∧
    compareDigest e.1.digest digest = .ok true
  final : r.finalReceived = true → programDigest r.header r.points = .ok r.expectedDigest

omit [PyFloat F] [FloatTrunc F] in
theorem ledger_init (cfg : RunConfig F) (now : F) : (init cfg now).Ledger [] where
  points := rfl
  seqs := rfl
  expected := rfl
  receipts := by simp [init]
  supplied := by simp
  final h := by cases h

omit [FloatTrunc F] in
/-- An accepted chunk is one more entry. -/
theorem Ledger.accepted {cs : List (Chunk F × Receipt)} {c : Chunk F} {digest : Str}
    (message : Str) (h : r.Ledger cs) (hnew : r.NewChunk c) (hok : r.ChunkOk c)
    (hdigest : chunkDigest c.chunkSeq c.points c.final = .ok digest)
    (hmatch : c.final = true → (r.extend c).digestMatches = .ok true) {receipt : Receipt}
    (hreceipt : receipt = { r.extend c with message := message }.receiptOf c) :
    ({ r.extend c with message := message }.accept digest c).2.Ledger (cs ++ [(c, receipt)]) := by
  have hseq : c.chunkSeq = (cs.length : ℤ) := hok.seq.trans h.expected
  refine ⟨?_, ?_, ?_, fun k d R => ?_, fun e he => ?_, fun hfinal => ?_⟩
  · show r.points ++ c.points = _
    rw [h.points]
    simp
  · rw [List.map_append, h.seqs, List.length_append, List.length_singleton, List.range_succ,
      List.map_append]
    simp [hseq]
  · show r.expectedChunkSeq + 1 = _
    rw [h.expected]
    simp
  · show Table.get (r.chunkReceipts.insert c.chunkSeq (digest, _)) k = some (d, R) ↔ _
    rw [Table.get_insert]
    split_ifs with hk
    · constructor
      · intro he
        cases he
        exact ⟨c, by simp [hreceipt], hk.symm, hdigest⟩
      · rintro ⟨c', hmem, hc', hd⟩
        rcases List.mem_append.1 hmem with hmem | hmem
        · have hold := (h.receipts k d R).2 ⟨c', hmem, hc', hd⟩
          rw [hk, hnew.2] at hold
          cases hold
        · cases List.mem_singleton.1 hmem
          rw [hd] at hdigest
          cases hdigest
          rw [hreceipt]
    · rw [h.receipts]
      constructor
      · rintro ⟨c', hmem, hc'⟩
        exact ⟨c', List.mem_append_left _ hmem, hc'⟩
      · rintro ⟨c', hmem, hc', hd⟩
        rcases List.mem_append.1 hmem with hmem | hmem
        · exact ⟨c', hmem, hc', hd⟩
        · cases List.mem_singleton.1 hmem
          exact absurd hc'.symm hk
  · rcases List.mem_append.1 he with he | he
    · exact h.supplied e he
    · cases List.mem_singleton.1 he
      exact hnew.1
  · have hm := hmatch hfinal
    exact programDigest_of_matches hm

omit [FloatTrunc F] in
/-- A call accepts nothing or the chunk it was made with. -/
theorem Ledger.append {cs : List (Chunk F × Receipt)} (h : r.Ledger cs) (c : Chunk F)
    (hclean : r.Clean (.append c)) :
    (r.appendChunk c).2.Ledger (cs ++ (r.acceptsChunk c).toList) := by
  have hx := appendChunk_appended r c
  unfold acceptsChunk
  generalize r.appendChunk c = x at hx ⊢
  cases hx with
  | raised e =>
    cases r.chunkReceipts.get c.chunkSeq <;> simpa using h
  | repeated hdigest hold => simpa [hold] using h
  | stuck hnew hok hfinal hmatch =>
    obtain ⟨b, hb⟩ := (digestMatches_isOk (r.extend c)).2 (hclean ⟨hfinal, hnew, hok⟩)
    rw [hmatch] at hb
    cases hb
  | @accepted _ message hnew hok hdigest hmatch =>
    simp only [hnew.2, accept]
    exact h.accepted message hnew hok hdigest hmatch rfl

omit [PyFloat F] [FloatTrunc F] in
/-- A step that is no call of `append_chunk` leaves the ledger alone. -/
theorem Ledger.same {cs : List (Chunk F × Receipt)} (h : r.Ledger cs)
    (hcfg : r'.toRunConfig = r.toRunConfig) (hsame : r.SameBuffer r') : r'.Ledger cs := by
  refine ⟨hsame.points ▸ h.points, h.seqs, hsame.expectedChunkSeq ▸ h.expected,
    hsame.chunkReceipts ▸ h.receipts, h.supplied, fun hfinal => ?_⟩
  rw [hsame.points, hcfg]
  exact h.final (hsame.finalReceived ▸ hfinal)

/-- What a step that is no call of `append_chunk` leaves alone. -/
theorem frame_of_step {label : Label F} (hs : r.step label = some r')
    (happend : ∀ c, label ≠ .append c) :
    r'.toRunConfig = r.toRunConfig ∧ r.SameBuffer r' := by
  rcases step_cases hs with ⟨c, rfl, -⟩ | ⟨-, hstart | rfl⟩ | ⟨now, -, -, rfl⟩ | ⟨reason, -, rfl⟩ |
    ⟨-, rfl⟩ | ⟨act, -, hx⟩
  · exact absurd rfl (happend c)
  · obtain ⟨-, -, -, -, rfl⟩ := start_eq_ok.1 hstart
    exact ⟨rfl, rfl, rfl, rfl, rfl⟩
  · exact ⟨rfl, rfl, rfl, rfl, rfl⟩
  · exact ⟨rfl, rfl, rfl, rfl, rfl⟩
  · exact ⟨rfl, rfl, rfl, rfl, rfl⟩
  · unfold ProgramRun.connectionLost
    split <;> exact ⟨rfl, rfl, rfl, rfl, rfl⟩
  · obtain ⟨hcfg, hpoints, hreceipts, hseq, hfinal, -, -⟩ := (exec_moved hx).frame
    exact ⟨hcfg, hpoints, hseq, hfinal, hreceipts⟩

theorem Ledger.step {cs : List (Chunk F × Receipt)} (h : r.Ledger cs) {label : Label F}
    (hclean : r.Clean label) (hs : r.step label = some r') :
    r'.Ledger (cs ++ (r.accepts label).toList) := by
  cases label with
  | append c =>
    cases hs
    exact h.append c hclean
  | _ =>
    obtain ⟨hcfg, hsame⟩ := frame_of_step hs fun c hc => by cases hc
    rw [accepts]
    · exact (List.append_nil cs).symm ▸ h.same hcfg hsame
    · intro c hc
      cases hc

/-- Along every clean run the fields describe the chunks accepted. -/
theorem ledger_of_run {cs : List (Chunk F × Receipt)} {ls : List (Label F)} (h : r.Ledger cs)
    (hclean : Transition.Along step Clean r ls) (hrun : Transition.run step r ls = some r') :
    r'.Ledger (cs ++ accepted r ls) := by
  induction ls generalizing r cs with
  | nil =>
    cases hrun
    rw [accepted, List.append_nil]
    exact h
  | cons l ls ih =>
    obtain ⟨m, hm, hrest⟩ := Transition.run_cons_eq_some.1 hrun
    rw [accepted, hm, ← List.append_assoc]
    exact ih (h.step hclean.1 hm) (hclean.2 m hm) hrest

omit [FloatTrunc F] in
/-- A repeated chunk gets its first receipt. -/
theorem Ledger.repeated {cs : List (Chunk F × Receipt)} (h : r.Ledger cs) {c : Chunk F}
    {receipt : Receipt} (hmem : (c, receipt) ∈ cs) : r.appendChunk c = (.ok receipt, r) := by
  obtain ⟨digest, hdigest, hsupplied⟩ := h.supplied _ hmem
  have hold := (h.receipts c.chunkSeq digest receipt).2 ⟨c, hmem, rfl, hdigest⟩
  have hsame : compareDigest digest digest = .ok true := by
    rw [compareDigest_eq_true hsupplied] at hsupplied
    exact hsupplied
  unfold appendChunk
  simp only [hdigest, hsupplied, hold, hsame]

/-! ## The horizon -/

/-- A streaming run holds at most its horizon ahead of the cursor. -/
def HorizonOk (r : ProgramRun F) : Prop :=
  r.runMode = .streaming → r.acceptedUntilUs - r.cursorUs ≤ r.policy.maxHorizonUs

variable [LawfulClock F]

omit [FloatRepr F] [Sha256] [LawfulClock F] in
/-- The thread only moves the cursor forward, or to the end of a complete program. -/
theorem HorizonOk.executed (h : r.HorizonOk) (hcursor : r.CursorOk) (hx : Executed r r') :
    r'.HorizonOk := by
  unfold CursorOk at hcursor
  cases hx with
  | @publish t _ hpc =>
    rw [hpc] at hcursor
    intro hmode
    have hle := h hmode
    show r.acceptedUntilUs - t.cursorUs ≤ r.policy.maxHorizonUs
    omega
  | @publishLast tUs hpc =>
    rw [hpc] at hcursor
    intro _
    show r.acceptedUntilUs - tUs ≤ r.policy.maxHorizonUs
    omega
  | _ => exact h

omit [LawfulClock F] in
theorem HorizonOk.step (h : r.HorizonOk) (hcursor : r.CursorOk) {label : Label F}
    (hs : r.step label = some r') : r'.HorizonOk := by
  refine step_induction hs h (fun c _ _ hok hmode => hok.horizon hmode) (fun hstart => ?_)
    (fun _ _ => h) (fun _ => h) ?_ (h.executed hcursor)
  · obtain ⟨-, -, -, -, rfl⟩ := start_eq_ok.1 hstart
    exact h
  · unfold ProgramRun.connectionLost
    split <;> exact h

theorem horizonOk_of_reachable {cfg : RunConfig F} {now : F}
    (h : Transition.Reachable step (init cfg now) r) : r.HorizonOk := by
  have hinv : r.StageOk ∧ r.CursorOk ∧ r.HorizonOk := by
    refine h.invariant (I := fun s => s.StageOk ∧ s.CursorOk ∧ s.HorizonOk) ?_ ?_
    · rintro s l s' ⟨hstage, hcursor, hhorizon⟩ hs
      exact ⟨hstage.step hs, hcursor.step hstage hs, hhorizon.step hcursor hs⟩
    · exact ⟨stageOk_init cfg now, rfl, fun _ => by simp [init, acceptedUntilUs]⟩
  exact hinv.2.2

/-- In every clean run the points are the accepted chunks, each once and in the order of its
sequence number; a call that raises leaves the buffer as it was; a repeated chunk gets its first
receipt and changes nothing; a complete program has the expected digest; and a streaming run stays
inside its horizon. -/
theorem append_chunk_ledger (cfg : RunConfig F) (now : F) (ls : List (Label F)) (s : ProgramRun F)
    (hrun : Transition.run step (init cfg now) ls = some s)
    (hclean : Transition.Along step Clean (init cfg now) ls) :
    (s.points = ((accepted (init cfg now) ls).map fun e => e.1.points).flatten ∧
      (accepted (init cfg now) ls).map (fun e => e.1.chunkSeq) =
        (List.range (accepted (init cfg now) ls).length).map Nat.cast) ∧
    (∀ c e, s.Clean (.append c) → (s.appendChunk c).1 = .error e →
      s.SameBuffer (s.appendChunk c).2) ∧
    (∀ c receipt, (c, receipt) ∈ accepted (init cfg now) ls →
      s.appendChunk c = (.ok receipt, s)) ∧
    (s.finalReceived = true → programDigest cfg.header s.points = .ok cfg.expectedDigest) ∧
    (cfg.runMode = .streaming → s.acceptedUntilUs - s.cursorUs ≤ cfg.policy.maxHorizonUs) := by
  have h := ledger_of_run (ledger_init cfg now) hclean hrun
  have hcfg := config_of_reachable ⟨ls, hrun⟩
  rw [List.nil_append] at h
  refine ⟨⟨h.points, h.seqs⟩, fun c e hc he => (append_unchanged_iff s c).2 hc e he,
    fun c receipt hmem => h.repeated hmem, fun hfinal => ?_, fun hmode => ?_⟩
  · have := h.final hfinal
    rw [hcfg] at this
    exact this
  · have := horizonOk_of_reachable ⟨ls, hrun⟩
    unfold HorizonOk at this
    rw [hcfg] at this
    exact this hmode

omit [LawfulClock F] in
/-- The runs of a comparable program are clean. -/
theorem along_clean {ls : List (Label F)} (h : r.Comparable) :
    Transition.Along step Clean r ls := by
  induction ls generalizing r with
  | nil => trivial
  | cons l ls ih =>
    refine ⟨?_, fun m hm => ih (config_of_step hm ▸ h)⟩
    cases l <;> first | exact fun _ => h | trivial

end ProgramRun

/-! ## Two uploads of a small program -/

section Demo

open ProgramRun

local instance chunksHash : Sha256 := lengthHash

/-- The program in two chunks, the first sent twice. -/
def demoUpload : List (ProgramRun.Label ℚ) :=
  [.append (demoChunk 0 (demoPoints.take 2) false), .append (demoChunk 0 (demoPoints.take 2) false),
    .append (demoChunk 1 (demoPoints.drop 2) true), .start]

theorem append_chunk_ledger_demo :
    ∃ s, Transition.run step (init (demoConfig .sealed demoDigest) 0) demoUpload = some s ∧
      s.points.length = 3 ∧
      (s.points = ((accepted (init (demoConfig .sealed demoDigest) 0) demoUpload).map
          fun e => e.1.points).flatten ∧
        (accepted (init (demoConfig .sealed demoDigest) 0) demoUpload).map (fun e => e.1.chunkSeq) =
          (List.range (accepted (init (demoConfig .sealed demoDigest) 0) demoUpload).length).map
            Nat.cast) := by
  have hrun : ((Transition.run step (init (demoConfig .sealed demoDigest) 0) demoUpload).map
      fun s => s.points.length) = some 3 := by decide +kernel
  obtain ⟨s, hs, hlen⟩ := Option.map_eq_some_iff.1 hrun
  have hcomparable : (demoConfig .sealed demoDigest).Comparable := by decide +kernel
  exact ⟨s, hs, hlen, (append_chunk_ledger _ 0 demoUpload s hs (along_clean hcomparable)).1⟩

/-- A digest of 64 characters that are not ASCII. -/
def foreignDigest : Str := List.replicate 64 233

/-- `open_run` admits a digest of 64 characters that are not ASCII; the final chunk is then refused
with its points in the buffer and the program marked complete. -/
theorem append_chunk_counterexample :
    foreignDigest.length = 64 ∧
    ∃ s, Transition.run step (init (demoConfig .sealed foreignDigest) 0)
        [.append (demoChunk 0 demoPoints true)] = some s ∧
      ((init (demoConfig .sealed foreignDigest) 0).appendChunk (demoChunk 0 demoPoints true)).1.isOk
        = false ∧
      s.points.length = 3 ∧ s.expectedChunkSeq = 1 ∧ s.finalReceived = true ∧
      s.chunkReceipts.get 0 = none ∧
      (programDigest s.header s.points).toOption ≠ some s.expectedDigest := by
  refine ⟨by decide, ((init (demoConfig .sealed foreignDigest) 0).appendChunk
    (demoChunk 0 demoPoints true)).2, rfl, ?_⟩
  decide +kernel

end Demo

end RemoteRobot.Stream
