import RemoteRobot.Program.Artifact

/-!
# The compiler on its own output

`SampleOk`, `SequenceOk`, `PhaseOk` and `BodyOk` are the checks of the compiler said of the typed
records it returns, without the raw template.  Whatever it returns passes them, and a template
whose fields read as the fields of a record that passes them compiles to that record.
-/

namespace RemoteRobot

open Py Except

variable {F : Type}

theorem liftExc_eq_ok {α : Type} {x : Except Exc α} {a : α} :
    (liftExc x : Except (Error F) α) = .ok a ↔ x = .ok a := by
  cases x <;> simp [liftExc]

theorem isDict_eq_true {v : Val F} : isDict v = true ↔ ∃ d, v = .dict d := by
  cases v <;> simp [isDict]

/-! ## Identifiers and fields -/

theorem shortId_eq_ok {v : Val F} {path : String} {s : Str} (h : shortId v path = .ok s) :
    v = .str s := by
  unfold shortId at h
  split at h
  · split_ifs at h
    cases h
    rfl
  · cases h

theorem rolePath_eq_ok {v : Val F} {path : String} {s : Str} (h : rolePath v path = .ok s) :
    v = .str s := by
  unfold rolePath at h
  simp only [bind_eq_ok, raiseWhen_eq_ok, exists_unit] at h
  obtain ⟨r, hr, -, h⟩ := h
  cases h
  exact shortId_eq_ok hr

section Fields

variable [PyFloat F]

/-- A dictionary with every required key and no unknown one. -/
theorem requireExactFields_dict {kvs : Dict F} {required optional : List String} {path : String}
    (hreq : ∀ k ∈ required, Key.str (py k) ∈ kvs.map Prod.fst)
    (hall : ∀ k ∈ kvs.map Prod.fst, ∃ r ∈ required ++ optional, k = .str (py r)) :
    requireExactFields (.dict kvs) required optional path = .ok () := by
  unfold requireExactFields
  rw [Val.toSet_dict, liftExc_ok]
  show (if _ ∧ _ then _ else _) = _
  rw [if_pos]
  constructor
  · rw [List.filter_eq_nil_iff]
    intro k hk
    rw [Bool.not_eq_true', Bool.not_eq_false]
    exact hasStr_iff.2 (hreq k hk)
  · rw [List.isEmpty_iff, List.filter_eq_nil_iff]
    intro k hk
    obtain ⟨r, hr, rfl⟩ := hall k hk
    rw [Bool.not_eq_true', Bool.not_eq_false, List.any_eq_true]
    exact ⟨r, hr, Key.eq_str_iff.2 rfl⟩

theorem requireExactFields_dictOf {kvs : List (String × Val F)} {required optional : List String}
    {path : String} (hreq : ∀ k ∈ required, k ∈ kvs.map Prod.fst)
    (hall : ∀ k ∈ kvs.map Prod.fst, k ∈ required ++ optional) :
    requireExactFields (dictOf kvs) required optional path = .ok () := by
  have hkeys : (entries kvs).map Prod.fst = (kvs.map Prod.fst).map fun k => Key.str (py k) := by
    simp [entries]
  refine requireExactFields_dict ?_ ?_
  · intro k hk
    rw [hkeys]
    exact List.mem_map.2 ⟨k, hreq k hk, rfl⟩
  · intro k hk
    rw [hkeys] at hk
    obtain ⟨r, hr, rfl⟩ := List.mem_map.1 hk
    exact ⟨r, hall r hr, rfl⟩

end Fields

/-! ## Fields of a value read back -/

theorem reads_dict {kvs : List (String × Val F)} {w : Val F} (h : (dictOf kvs).Reads w)
    (hnd : (kvs.map Prod.fst).Nodup) :
    ∃ d, w = .dict d ∧ (d.map Prod.fst).Perm ((entries kvs).map Prod.fst) ∧
      ∀ k v, lookup (py k) (entries kvs) = some v →
        lookup (py k) d = some (field k d) ∧ v.Reads (field k d) := by
  obtain ⟨d, rfl, -, hp, hf⟩ := h.fields (nodup_entries hnd)
  refine ⟨d, rfl, hp, fun k v hk => ?_⟩
  obtain ⟨u, hu, hr⟩ := (hf (py k)).1 v hk
  unfold field
  rw [hu]
  exact ⟨rfl, hr⟩

theorem reads_list {α : Type} {f : α → Val F} {xs : List α} {w : Val F}
    (h : (Val.list (xs.map f)).Reads w) :
    ∃ ws, w = .list ws ∧ List.Forall₂ (fun x w => (f x).Reads w) xs ws := by
  obtain ⟨ws, rfl, hws⟩ := h
  refine ⟨ws, rfl, ?_⟩
  rw [Val.readsList_iff_forall₂, List.forall₂_map_left_iff] at hws
  exact hws

theorem reads_floats {xs : List F} {w : Val F} (h : (Val.list (xs.map .float)).Reads w) :
    w = .list (xs.map .float) := by
  obtain ⟨ws, rfl, hws⟩ := reads_list h
  congr 1
  clear h
  induction hws with
  | nil => rfl
  | cons hx _ ih => rw [List.map_cons, ← ih, show _ = Val.float _ from hx]

theorem pyStr_of_lookup [PyText F] {d : Dict F} {k : String} {s : Str}
    (h : lookup (py k) d = some (.str s)) :
    ((Val.dict d).getItem k).bind Val.pyStr = .ok s := by
  rw [getItem_of_lookup h]
  rfl

/-! ## Samples -/

section Samples

variable [PyFloat F]

omit [PyFloat F] in
theorem sampleTime_eq_ok {v : Val F} {previous : Option (Sample F)} {path : String} {t : ℤ}
    (h : sampleTime v previous path = .ok t) : v = .int t := by
  unfold sampleTime at h
  split at h
  · simp only [bind_eq_ok, raiseWhen_eq_ok, exists_unit] at h
    rw [Except.ok.inj h.2.2.2]
  · cases h

theorem mapM_toFloat_floats (xs : List F) : (xs.map Val.float).mapM Val.toFloat = some xs := by
  induction xs with
  | nil => rfl
  | cons x xs ih =>
    rw [List.map_cons, List.mapM_cons, ih]
    rfl

theorem length_of_mapM {α β : Type} {f : α → Option β} {xs : List α} {ys : List β}
    (h : xs.mapM f = some ys) : ys.length = xs.length := by
  induction xs generalizing ys with
  | nil =>
    cases h
    rfl
  | cons x xs ih =>
    rw [List.mapM_cons] at h
    cases hx : f x with
    | none =>
      rw [hx] at h
      cases h
    | some y =>
      cases hxs : xs.mapM f with
      | none =>
        rw [hx, hxs] at h
        cases h
      | some zs =>
        rw [hx, hxs] at h
        cases h
        rw [List.length_cons, List.length_cons, ih hxs]

theorem sampleValues_eq_ok {v : Val F} {n : ℕ} {path : String} {xs : List F}
    (h : sampleValues v n path = .ok xs) :
    xs.length = n ∧ xs.all PyFloat.isFinite = true := by
  unfold sampleValues at h
  split at h
  · simp only [bind_eq_ok, raiseWhen_eq_ok, exists_unit, not_not, Bool.not_eq_false] at h
    obtain ⟨hlen, -, ys, hys, hfin, h⟩ := h
    cases h
    unfold floatValues at hys
    split at hys
    · cases hys
    · rename_i hm
      cases hys
      exact ⟨by rw [length_of_mapM hm, hlen], hfin⟩
  · cases h

theorem sampleValues_floats {xs : List F} {n : ℕ} {path : String} (hlen : xs.length = n)
    (hfin : xs.all PyFloat.isFinite = true) :
    sampleValues (.list (xs.map .float)) n path = .ok xs := by
  have hbool : (xs.map Val.float).any isBool = false := by
    rw [List.any_map]
    simp [isBool, Function.comp_def]
  have hval : floatValues (xs.map Val.float) path = .ok xs := by
    unfold floatValues
    rw [mapM_toFloat_floats]
  simp only [sampleValues, bind_eq_ok, raiseWhen_eq_ok, exists_unit, not_not, Bool.not_eq_false,
    List.length_map, hbool]
  exact ⟨hlen, by simp, xs, hval, hfin, rfl⟩

/-- The checks of one sample. -/
structure SampleOk (axes : List (DenseAxis F)) (reference commandSchema : Str) (path : String)
    (previous : Option (Sample F)) (s : Sample F) : Prop where
  time : sampleTime (.int s.tUs) previous path = .ok s.tUs
  length : s.values.length = axes.length
  finite : s.values.all PyFloat.isFinite = true
  check : checkSample axes reference commandSchema path previous s = .ok ()

variable {axes : List (DenseAxis F)} {reference commandSchema : Str} {path : String}
  {previous : Option (Sample F)}

theorem sampleOk_of_compileSample {raw : Val F} {s : Sample F}
    (h : compileSample axes reference commandSchema path previous raw = .ok s) :
    SampleOk axes reference commandSchema path previous s := by
  unfold compileSample at h
  simp only [bind_eq_ok, raiseWhen_eq_ok, exists_unit] at h
  obtain ⟨-, -, v, -, t, ht, w, -, xs, hxs, hc, h⟩ := h
  cases h
  have hv := sampleTime_eq_ok ht
  obtain ⟨hlen, hfin⟩ := sampleValues_eq_ok hxs
  exact ⟨hv ▸ ht, hlen, hfin, hc⟩

theorem SampleOk.compile {s : Sample F} (h : SampleOk axes reference commandSchema path previous s)
    {raw : Val F} (hraw : s.toVal.Reads raw) :
    compileSample axes reference commandSchema path previous raw = .ok s := by
  obtain ⟨d, rfl, hp, hf⟩ := reads_dict hraw (by simp)
  have ht := hf "t_us" (.int s.tUs) (by simp)
  have hv := hf "values" (.list (s.values.map .float)) (by simp)
  have hexact : requireExactFields (.dict d) ["t_us", "values"] [] path = .ok () := by
    refine requireExactFields_dict ?_ ?_
    · intro k hk
      rw [hp.mem_iff]
      simp only [List.mem_cons, List.not_mem_nil, or_false] at hk
      rcases hk with rfl | rfl <;> simp
    · intro k hk
      rw [hp.mem_iff] at hk
      simp only [entries_cons, entries_nil, List.map_cons, List.map_nil, List.mem_cons,
        List.not_mem_nil, or_false] at hk
      rcases hk with rfl | rfl
      · exact ⟨"t_us", by simp, rfl⟩
      · exact ⟨"values", by simp, rfl⟩
  have ht' : (Val.dict d).getItem "t_us" = .ok (.int s.tUs) :=
    getItem_of_lookup (ht.1.trans (congrArg some ht.2))
  have hv' : (Val.dict d).getItem "values" = .ok (.list (s.values.map .float)) :=
    getItem_of_lookup (hv.1.trans (congrArg some (reads_floats hv.2)))
  unfold compileSample
  simp only [bind_eq_ok, raiseWhen_eq_ok, exists_unit, liftExc_eq_ok]
  exact ⟨by simp [isDict], hexact, _, ht', _, h.time, _, hv', _,
    sampleValues_floats h.length h.finite, h.check, rfl⟩

/-- The checks of the loop over the samples. -/
def SamplesOk (axes : List (DenseAxis F)) (reference commandSchema : Str) (path : String) :
    ℕ → Option (Sample F) → List (Sample F) → Prop
  | _, _, [] => True
  | index, previous, s :: rest =>
    SampleOk axes reference commandSchema (path ++ ".samples[" ++ toString index ++ "]") previous s ∧
      SamplesOk axes reference commandSchema path (index + 1) (some s) rest

theorem samplesOk_of_compile {index : ℕ} {raws : List (Val F)} {ss : List (Sample F)}
    (h : compileSamplesFrom axes reference commandSchema path index previous raws = .ok ss) :
    ss.length = raws.length ∧ SamplesOk axes reference commandSchema path index previous ss := by
  induction raws generalizing index previous ss with
  | nil =>
    cases h
    exact ⟨rfl, trivial⟩
  | cons raw raws ih =>
    unfold compileSamplesFrom at h
    simp only [bind_eq_ok] at h
    obtain ⟨s, hs, ss', hss, h⟩ := h
    cases h
    obtain ⟨hlen, hok⟩ := ih hss
    exact ⟨by rw [List.length_cons, List.length_cons, hlen], sampleOk_of_compileSample hs, hok⟩

theorem SamplesOk.compile {index : ℕ} {raws : List (Val F)} {ss : List (Sample F)}
    (h : SamplesOk axes reference commandSchema path index previous ss)
    (hraws : List.Forall₂ (fun (s : Sample F) w => s.toVal.Reads w) ss raws) :
    compileSamplesFrom axes reference commandSchema path index previous raws = .ok ss := by
  induction hraws generalizing index previous with
  | nil => rfl
  | cons hraw _ ih =>
    unfold compileSamplesFrom
    simp only [bind_eq_ok]
    exact ⟨_, h.1.compile hraw, _, ih h.2, rfl⟩

theorem samplesOk_of_compileDenseSamples {raw : Val F} {ss : List (Sample F)}
    (h : compileDenseSamples raw axes reference commandSchema path = .ok ss) :
    2 ≤ ss.length ∧ SamplesOk axes reference commandSchema path 0 none ss := by
  unfold compileDenseSamples at h
  split at h
  · split_ifs at h with hlen
    obtain ⟨hlen', hok⟩ := samplesOk_of_compile h
    exact ⟨by omega, hok⟩
  · cases h

theorem compileDenseSamples_of_ok {raw : Val F} {ss : List (Sample F)} (hlen : 2 ≤ ss.length)
    (hok : SamplesOk axes reference commandSchema path 0 none ss)
    (hraw : (Val.list (ss.map Sample.toVal)).Reads raw) :
    compileDenseSamples raw axes reference commandSchema path = .ok ss := by
  obtain ⟨ws, rfl, hws⟩ := reads_list hraw
  unfold compileDenseSamples
  have hl := hws.length_eq
  simp only
  rw [if_neg (by omega)]
  exact hok.compile hws

end Samples

/-! ## Sequences -/

section Sequences

variable [PyFloat F] {R : Registry F} {rootId : Str}

/-- The checks of one sequence. -/
structure SequenceOk (R : Registry F) (rootId : Str) (path : String) (s : CompiledSequence F)
    (r : ResolvedGroup F) : Prop where
  role : rolePath (.str s.rolePath : Val F) (path ++ ".group") = .ok s.rolePath
  resolve : R.resolveGroup rootId s.rolePath = .ok r
  target : s.resolvedTarget = (normalizeResolution r).1
  schema : s.commandSchema ∈ r.group.commandSchemas
  position : s.commandSchema = positionSchema ∨ s.commandSchema = normalizedPositionSchema
  reference : s.reference = py "absolute" ∨ s.reference = py "phase_start_measured"
  axes_ne : (normalizeResolution r).2.isEmpty = false
  axes : s.axes = (normalizeResolution r).2.map fun a => ⟨a.name, a.kind, a.unit⟩
  samples_length : 2 ≤ s.samples.length
  samples : SamplesOk (normalizeResolution r).2 s.reference s.commandSchema path 0 none s.samples
  duration : s.durationUs = (s.samples.getLast?.map Sample.tUs).getD 0

/-- The group of a template sequence, as the compiler gets it from its own output. -/
def templateSequenceOf (s : CompiledSequence F) (samples : Val F) : Val F :=
  dictOf [("group", .str s.rolePath), ("command_schema", .str s.commandSchema),
    ("reference", .str s.reference), ("samples", samples)]

variable [PyText F]

theorem sequenceOk_of_compile {raw : Val F} {path : String} {s : CompiledSequence F}
    (h : compileSequence R rootId raw path = .ok s) : ∃ r, SequenceOk R rootId path s r := by
  unfold compileSequence at h
  simp only [bind_eq_ok, raiseWhen_eq_ok, exists_unit, not_and_or, not_not,
    Bool.not_eq_true] at h
  obtain ⟨-, -, group, -, role, hrole, r, hr, schema, -, hin, hpos, reference, -, href, hne, raws, -,
    ss, hss, h⟩ := h
  cases h
  obtain ⟨hlen, hok⟩ := samplesOk_of_compileDenseSamples hss
  exact ⟨r, rolePath_eq_ok hrole ▸ hrole, hr, rfl, hin, hpos, href, hne, rfl, hlen, hok, rfl⟩

theorem SequenceOk.compile {path : String} {s : CompiledSequence F} {r : ResolvedGroup F}
    (h : SequenceOk R rootId path s r) {samples : Val F}
    (hs : (Val.list (s.samples.map Sample.toVal)).Reads samples) :
    compileSequence R rootId (templateSequenceOf s samples) path = .ok s := by
  have hexact : requireExactFields (templateSequenceOf s samples)
      ["group", "command_schema", "reference", "samples"] [] path = .ok () :=
    requireExactFields_dictOf (by simp) (by simp)
  unfold compileSequence
  simp only [bind_eq_ok, raiseWhen_eq_ok, exists_unit, not_and_or, not_not, Bool.not_eq_true,
    liftExc_eq_ok]
  refine ⟨by simp [templateSequenceOf, dictOf, isDict], hexact, .str s.rolePath,
    getItem_of_lookup (by simp), _, h.role, r, h.resolve, s.commandSchema,
    pyStr_of_lookup (by simp), h.schema, h.position, s.reference,
    pyStr_of_lookup (by simp), h.reference, h.axes_ne, samples, getItem_of_lookup (by simp),
    s.samples, compileDenseSamples_of_ok h.samples_length h.samples hs, ?_⟩
  rw [← h.target, ← h.axes, ← h.duration]

end Sequences

section Records

variable [Cbor F] [Sha256] [PyFloat F] [PyText F] {R : Registry F} {rootId : Str}

/-- A raw sequence that reads as the output `s`. -/
def ReadsSequence (s : HashedSequence F) (raw : Val F) : Prop :=
  ∃ samples, (Val.list (s.samples.map Sample.toVal)).Reads samples ∧
    raw = templateSequenceOf s.toCompiledSequence samples

/-- The checks of the loop over the sequences of a phase. -/
def SequencesOk (R : Registry F) (rootId : Str) (path : String) :
    ℕ → List ResolvedTarget → List (HashedSequence F) → Prop
  | _, _, [] => True
  | index, targets, s :: rest =>
    (∃ r, SequenceOk R rootId (path ++ ".sequences[" ++ toString index ++ "]")
      s.toCompiledSequence r) ∧
    s.resolvedTarget ∉ targets ∧ digestValue (dictOf s.fields) = .ok s.sha256 ∧
    SequencesOk R rootId path (index + 1) (s.resolvedTarget :: targets) rest

theorem sequencesOk_of_compile {path : String} {index : ℕ} {targets : List ResolvedTarget}
    {raws : List (Val F)} {ss : List (HashedSequence F)}
    (h : compileSequencesFrom R rootId path index targets raws = .ok ss) :
    ss.length = raws.length ∧ SequencesOk R rootId path index targets ss := by
  induction raws generalizing index targets ss with
  | nil =>
    cases h
    exact ⟨rfl, trivial⟩
  | cons raw raws ih =>
    unfold compileSequencesFrom at h
    simp only [bind_eq_ok, raiseWhen_eq_ok, exists_unit] at h
    obtain ⟨s, hs, hnew, sha, hsha, ss', hss, h⟩ := h
    cases h
    obtain ⟨hlen, hok⟩ := ih hss
    exact ⟨by rw [List.length_cons, List.length_cons, hlen], sequenceOk_of_compile hs, hnew, hsha,
      hok⟩

theorem SequencesOk.compile {path : String} {index : ℕ} {targets : List ResolvedTarget}
    {raws : List (Val F)} {ss : List (HashedSequence F)}
    (h : SequencesOk R rootId path index targets ss)
    (hraws : List.Forall₂ ReadsSequence ss raws) :
    compileSequencesFrom R rootId path index targets raws = .ok ss := by
  induction hraws generalizing index targets with
  | nil => rfl
  | cons hraw _ ih =>
    obtain ⟨samples, hs, rfl⟩ := hraw
    obtain ⟨⟨r, hr⟩, hnew, hsha, hok⟩ := h
    unfold compileSequencesFrom
    simp only [bind_eq_ok, raiseWhen_eq_ok, exists_unit]
    exact ⟨_, hr.compile hs, hnew, _, hsha, _, ih hok, rfl⟩

/-! ## Phases -/

structure PhaseOk (R : Registry F) (rootId : Str) (path : String) (p : HashedPhase F) : Prop where
  phaseId : shortId (.str p.phaseId : Val F) (path ++ ".phase_id") = .ok p.phaseId
  sequences_ne : p.sequences ≠ []
  sequences : SequencesOk R rootId path 0 [] p.sequences
  duration : p.durationUs = phaseDuration p.sequences
  digest : digestValue (dictOf p.fields) = .ok p.sha256

/-- The phase of a template that the compiler gets from its own output. -/
def templatePhaseOf (p : CompiledPhase F) (sequences : List (Val F)) : Val F :=
  dictOf [("phase_id", .str p.phaseId), ("completion", defaultCompletion),
    ("transitions", .list []), ("sequences", .list sequences)]

omit [Cbor F] [Sha256] [PyFloat F] [PyText F] in
theorem nonEmptyList_eq_ok {v : Val F} {e : Error F} {vs : List (Val F)}
    (h : nonEmptyList v e = .ok vs) : vs ≠ [] := by
  unfold nonEmptyList at h
  split at h
  · cases h
    simp
  · cases h

omit [Cbor F] [Sha256] [PyFloat F] [PyText F] in
theorem nonEmptyList_list {vs : List (Val F)} (h : vs ≠ []) (e : Error F) :
    nonEmptyList (.list vs) e = .ok vs := by
  cases vs with
  | nil => exact absurd rfl h
  | cons v vs => rfl

theorem phaseOk_of_compile {raw : Val F} {path : String} {p : HashedPhase F}
    (h : compilePhase R rootId raw path = .ok p) : PhaseOk R rootId path p := by
  unfold compilePhase at h
  simp only [bind_eq_ok, raiseWhen_eq_ok, exists_unit] at h
  obtain ⟨-, -, v, -, phaseId, hid, -, -, w, -, raws, hraws, ss, hss, sha, hsha, h⟩ := h
  cases h
  obtain ⟨hlen, hok⟩ := sequencesOk_of_compile hss
  have hne := nonEmptyList_eq_ok hraws
  refine ⟨shortId_eq_ok hid ▸ hid, ?_, hok, rfl, hsha⟩
  rw [← List.length_pos_iff] at hne ⊢
  exact hlen ▸ hne

theorem PhaseOk.compile {path : String} {p : HashedPhase F} (h : PhaseOk R rootId path p)
    {raws : List (Val F)}
    (hraws : List.Forall₂ ReadsSequence p.sequences raws) :
    compilePhase R rootId (templatePhaseOf p.toCompiledPhase raws) path = .ok p := by
  have hexact : requireExactFields (templatePhaseOf p.toCompiledPhase raws)
      ["phase_id", "sequences"] ["completion", "transitions"] path = .ok () :=
    requireExactFields_dictOf (by simp) (by simp)
  have hcompletion : getOr "completion" defaultCompletion (templatePhaseOf p.toCompiledPhase raws) =
      defaultCompletion := by simp [templatePhaseOf, dictOf, getOr]
  have htransitions : getOr "transitions" (.list []) (templatePhaseOf p.toCompiledPhase raws) =
      .list [] := by simp [templatePhaseOf, dictOf, getOr]
  have hne : raws ≠ [] := by
    intro hnil
    rw [hnil, List.forall₂_nil_right_iff] at hraws
    exact h.sequences_ne hraws
  have heq : Val.eq (defaultCompletion : Val F) defaultCompletion = true := by
    simp [defaultCompletion, dictOf, Val.eq, Val.subDict, findKey, Key.eq]
  unfold compilePhase
  simp only [bind_eq_ok, raiseWhen_eq_ok, exists_unit, liftExc_eq_ok, hcompletion, htransitions]
  refine ⟨by simp [templatePhaseOf, dictOf, isDict], hexact, .str p.phaseId,
    getItem_of_lookup (by simp), _, h.phaseId, by simp [heq], rfl, .list raws,
    getItem_of_lookup (by simp), raws, nonEmptyList_list hne _, p.sequences,
    h.sequences.compile hraws, p.sha256, ?_, ?_⟩
  · rw [← h.duration]
    exact h.digest
  · rw [← h.duration]

def PhasesOk (R : Registry F) (rootId : Str) : ℕ → List Str → List (HashedPhase F) → Prop
  | _, _, [] => True
  | index, seen, p :: rest =>
    PhaseOk R rootId ("template.phases[" ++ toString index ++ "]") p ∧ p.phaseId ∉ seen ∧
      PhasesOk R rootId (index + 1) (p.phaseId :: seen) rest

theorem phasesOk_of_compile {index : ℕ} {seen : List Str} {raws : List (Val F)}
    {ps : List (HashedPhase F)} (h : compilePhasesFrom R rootId index seen raws = .ok ps) :
    ps.length = raws.length ∧ PhasesOk R rootId index seen ps := by
  induction raws generalizing index seen ps with
  | nil =>
    cases h
    exact ⟨rfl, trivial⟩
  | cons raw raws ih =>
    unfold compilePhasesFrom at h
    simp only [bind_eq_ok, raiseWhen_eq_ok, exists_unit] at h
    obtain ⟨p, hp, hnew, ps', hps, h⟩ := h
    cases h
    obtain ⟨hlen, hok⟩ := ih hps
    exact ⟨by rw [List.length_cons, List.length_cons, hlen], phaseOk_of_compile hp, hnew, hok⟩

/-- A raw phase that reads as the output `p`. -/
def ReadsPhase (p : HashedPhase F) (raw : Val F) : Prop :=
  ∃ raws, List.Forall₂ ReadsSequence p.sequences raws ∧
    raw = templatePhaseOf p.toCompiledPhase raws

theorem PhasesOk.compile {index : ℕ} {seen : List Str} {raws : List (Val F)}
    {ps : List (HashedPhase F)} (h : PhasesOk R rootId index seen ps)
    (hraws : List.Forall₂ ReadsPhase ps raws) :
    compilePhasesFrom R rootId index seen raws = .ok ps := by
  induction hraws generalizing index seen with
  | nil => rfl
  | cons hraw _ ih =>
    obtain ⟨raws, hss, rfl⟩ := hraw
    obtain ⟨hp, hnew, hok⟩ := h
    unfold compilePhasesFrom
    simp only [bind_eq_ok, raiseWhen_eq_ok, exists_unit]
    exact ⟨_, hp.compile hss, hnew, _, ih hok, rfl⟩

/-! ## The body -/

structure BodyOk (R : Registry F) (b : CompiledBody F) : Prop where
  serverId : b.serverId = R.serverId
  rootId : shortId (.str b.rootId : Val F) "template.root_id" = .ok b.rootId
  exposed : ∃ manifest v, R.describe b.rootId = .ok manifest ∧
    manifest.get "exposed_as_run_root" = .ok v ∧ isTrue v = true
  manifestHash : R.manifestHash b.rootId = .ok b.manifestHash
  phases_ne : b.phases ≠ []
  phases : PhasesOk R b.rootId 0 [] b.phases
  programId : shortId (.str b.programId : Val F) "template.program_id" = .ok b.programId
  outline : digestValue (outlineOf b.phases) = .ok b.outlineSha256

def templateBodyOf (b : CompiledBody F) (phases : List (Val F)) : Val F :=
  dictOf [("format", .str templateFormat), ("version", .int 2), ("program_id", .str b.programId),
    ("root_id", .str b.rootId), ("phases", .list phases)]

theorem bodyOk_of_compile {template : Val F} {b : CompiledBody F}
    (h : compileBody R template = .ok b) : BodyOk R b := by
  unfold compileBody at h
  simp only [bind_eq_ok, raiseWhen_eq_ok, exists_unit, liftExc_eq_ok, Bool.not_eq_false] at h
  obtain ⟨-, _, -, _, -, -, v, -, rootId, hroot, manifest, hm, u, hu, htrue, hash, hhash, w, -, raws,
    hraws, ps, hps, programId, hid, sha, hsha, h⟩ := h
  cases h
  obtain ⟨hlen, hok⟩ := phasesOk_of_compile hps
  have hne := nonEmptyList_eq_ok hraws
  refine ⟨rfl, shortId_eq_ok hroot ▸ hroot, ⟨manifest, u, hm, hu, htrue⟩, hhash, ?_, hok,
    shortId_eq_ok hid ▸ hid, hsha⟩
  rw [← List.length_pos_iff] at hne ⊢
  exact hlen ▸ hne

theorem BodyOk.compile {b : CompiledBody F} (h : BodyOk R b) {raws : List (Val F)}
    (hraws : List.Forall₂ ReadsPhase b.phases raws) :
    compileBody R (templateBodyOf b raws) = .ok b := by
  have hexact : requireExactFields (templateBodyOf b raws)
      ["format", "version", "root_id", "phases"] ["program_id"] "template" = .ok () :=
    requireExactFields_dictOf (by simp) (by simp)
  have hid : getOr "program_id" (.str (py "program")) (templateBodyOf b raws) =
      .str b.programId := by simp [templateBodyOf, dictOf, getOr]
  have hne : raws ≠ [] := by
    intro hnil
    rw [hnil, List.forall₂_nil_right_iff] at hraws
    exact h.phases_ne hraws
  obtain ⟨manifest, v, hm, hv, htrue⟩ := h.exposed
  unfold compileBody
  simp only [bind_eq_ok, raiseWhen_eq_ok, exists_unit, liftExc_eq_ok, Bool.not_eq_false, hid]
  refine ⟨hexact, .str templateFormat, getItem_of_lookup (by simp), .int 2,
    getItem_of_lookup (by simp), by simp [Val.eq], .str b.rootId, getItem_of_lookup (by simp), _,
    h.rootId, manifest, hm, v, hv, htrue, _, h.manifestHash, .list raws, getItem_of_lookup (by simp),
    raws, nonEmptyList_list hne _, b.phases, h.phases.compile hraws, _, h.programId, _, h.outline, ?_⟩
  rw [← h.serverId]

end Records

end RemoteRobot
