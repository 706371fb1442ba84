import RemoteRobot.Program.Artifact
import RemoteRobot.Program.Escapes

/-!
# Exceptions of an untrusted artifact

A sender can shape the body of an artifact at will and recompute its digests.  `from_bytes` and
`validate_for_current_registry` refuse most bodies with a `ProgramError` or a `RegistryError`; other
exceptions escape where a sequence is used before its type is known, where a name of the body is
missing or has no text, where the unknown fields of a sample cannot be sorted and where a segment is
too long for a float.  `Regular` says that the checks come to none of these places, and nothing else
escapes (`validated_refuses_iff`).
-/

namespace RemoteRobot

open Py Except

variable {F : Type}

/-! ## The digests inside a body -/

section Hashes

variable [Cbor F] [Sha256] [PyFloat F] [PyText F] [PlainCbor F]

/-- The record holds this value as the digest of its other entries. -/
def Sealed (digest : Val F) (kvs : Dict F) : Prop :=
  ∃ sha, (digestValue (.dict (withoutKey "sha256" kvs)) : Except (Error F) Str) = .ok sha ∧
    Val.eq digest (.str sha) = true

/-- An object with its own digest in it. -/
def SequenceSealed (value : Val F) : Prop :=
  ∃ kvs, value = .dict kvs ∧ Sealed (field "sha256" kvs) kvs

/-- The items of `phase.get("sequences", [])` -/
def sequencesOf (phase : Dict F) : Except Exc (List (Val F)) :=
  ((lookup (py "sequences") phase).getD (.list [])).iter

/-- The sequences of a phase are found one after the other: they can be listed, and up to the first
with a wrong digest each of them is an object. -/
def SequencesRead (phase : Dict F) : Prop :=
  ∃ items, sequencesOf phase = .ok items ∧
    ∀ before sequence after, items = before ++ sequence :: after → (∀ s ∈ before, SequenceSealed s) →
      isDict sequence = true

/-- Both digests of a phase fit. -/
def PhaseSealed (phase phaseOutline : Dict F) : Prop :=
  Sealed (field "sha256" phase) phase ∧ Sealed (field "payload_sha256" phaseOutline) phase

/-- The sequences of every phase that is come to are found. -/
def PhasesRead : List (Val F) → List (Val F) → Prop
  | phase :: phases, phaseOutline :: outlines =>
    ∀ kvs kvs', phase = .dict kvs → phaseOutline = .dict kvs' → PhaseSealed kvs kvs' →
      SequencesRead kvs ∧ ((∀ items, sequencesOf kvs = .ok items → ∀ s ∈ items, SequenceSealed s) →
        PhasesRead phases outlines)
  | _, _ => True

omit [PyText F] [PlainCbor F] in
theorem validateSequenceHash_eq_ok {index : ℕ} {value : Val F} :
    validateSequenceHash index value = .ok () ↔ SequenceSealed value := by
  unfold SequenceSealed Sealed
  cases value with
  | dict kvs => simp [validateSequenceHash, bind_eq_ok, raiseWhen_eq_ok]
  | _ => simp [validateSequenceHash]

omit [PyText F] in
theorem refuses_validateSequenceHash {index : ℕ} {value : Val F} (h : value.encodable = true) :
    RaisesOnly Refusal (validateSequenceHash index value) ↔ isDict value = true := by
  cases value with
  | dict kvs =>
    obtain ⟨sha, hsha, -⟩ := exists_digestValue (encodable_withoutKey "sha256" h)
    simp [validateSequenceHash, raisesOnly_bind, isDict, raisesOnly_of_eq_ok hsha]
  | _ => simp [validateSequenceHash, isDict]

omit [Cbor F] [Sha256] [PyFloat F] [PyText F] [PlainCbor F] in
theorem encodable_sequencesOf {phase : Dict F} {items : List (Val F)}
    (hitems : sequencesOf phase = .ok items) (h : (Val.dict phase).encodable = true) :
    ∀ item ∈ items, item.encodable = true := by
  refine encodable_iter hitems ?_
  cases hl : lookup (py "sequences") phase with
  | none => rfl
  | some v => exact encodable_of_lookup hl h

omit [PyText F] in
theorem refuses_validatePhaseHashes {index : ℕ} {phase phaseOutline : Dict F}
    (h : (Val.dict phase).encodable = true) :
    RaisesOnly Refusal (validatePhaseHashes index (.dict phase) (.dict phaseOutline)) ↔
      (PhaseSealed phase phaseOutline → SequencesRead phase) := by
  obtain ⟨sha, hsha, -⟩ := exists_digestValue (encodable_withoutKey "sha256" h)
  have hsealed : PhaseSealed phase phaseOutline ↔ (Val.eq (field "sha256" phase) (.str sha) &&
      Val.eq (field "payload_sha256" phaseOutline) (.str sha)) = true := by
    simp [PhaseSealed, Sealed, hsha]
  unfold validatePhaseHashes
  simp only [raisesOnly_bind, hsha, raisesOnly_ok, true_and, Except.ok.injEq,
    forall_eq', raisesOnly_raiseWhen, refusal_programError, implies_true, raiseWhen_eq_ok,
    Bool.not_eq_false, hsealed, forall_const, refuses_liftExc, raisesOnly_forM, liftExc_eq_ok,
    validateSequenceHash_eq_ok]
  refine imp_congr_right fun _ => ⟨?_, ?_⟩
  · rintro ⟨⟨items, hitems⟩, hread⟩
    refine ⟨items, hitems, fun before x after he hbefore => ?_⟩
    have hx : x.encodable = true :=
      encodable_sequencesOf hitems h x (by rw [he]; exact List.mem_append_right _ List.mem_cons_self)
    exact (refuses_validateSequenceHash hx).1 (hread items hitems before x after he hbefore)
  · rintro ⟨items, hitems, hread⟩
    refine ⟨⟨items, hitems⟩, fun items' hitems' before x after he hbefore => ?_⟩
    obtain rfl := Except.ok.inj (hitems.symm.trans hitems')
    have hx : x.encodable = true :=
      encodable_sequencesOf hitems h x (by rw [he]; exact List.mem_append_right _ List.mem_cons_self)
    exact (refuses_validateSequenceHash hx).2 (hread before x after he hbefore)

omit [PyText F] [PlainCbor F] in
theorem validatePhaseHashes_eq_ok {index : ℕ} {phase phaseOutline : Dict F} :
    validatePhaseHashes index (.dict phase) (.dict phaseOutline) = .ok () ↔
      PhaseSealed phase phaseOutline ∧ ∃ items, sequencesOf phase = .ok items ∧
        ∀ s ∈ items, SequenceSealed s := by
  unfold validatePhaseHashes PhaseSealed Sealed
  simp only [bind_eq_ok, raiseWhen_eq_ok, exists_unit, Bool.not_eq_false, Bool.and_eq_true,
    liftExc_eq_ok, forM_eq_ok, validateSequenceHash_eq_ok]
  constructor
  · rintro ⟨sha, hsha, ⟨hp, ho⟩, items, hitems, hseq⟩
    exact ⟨⟨⟨sha, hsha, hp⟩, sha, hsha, ho⟩, items, hitems, hseq⟩
  · rintro ⟨⟨⟨sha, hsha, hp⟩, sha', hsha', ho⟩, items, hitems, hseq⟩
    obtain rfl := Except.ok.inj (hsha.symm.trans hsha')
    exact ⟨sha, hsha, ⟨hp, ho⟩, items, hitems, hseq⟩

omit [PyText F] [PlainCbor F] in
theorem validatePhaseHashes_of_not_dict {index : ℕ} {phase phaseOutline : Val F}
    (h : ¬∃ kvs kvs', phase = .dict kvs ∧ phaseOutline = .dict kvs') :
    validatePhaseHashes index phase phaseOutline =
      .error (programError "INVALID_ARTIFACT" "phase record is invalid") := by
  unfold validatePhaseHashes
  split
  · exact absurd ⟨_, _, rfl, rfl⟩ h
  · rfl

omit [PyText F] in
theorem refuses_validatePhasesFrom {index : ℕ} {phases outlines : List (Val F)}
    (h : ∀ phase ∈ phases, phase.encodable = true) :
    RaisesOnly Refusal (validatePhasesFrom index phases outlines) ↔ PhasesRead phases outlines := by
  induction phases generalizing index outlines with
  | nil => simp [validatePhasesFrom, PhasesRead]
  | cons phase phases ih =>
    rw [List.forall_mem_cons] at h
    obtain _ | ⟨phaseOutline, outlines⟩ := outlines
    · simp [validatePhasesFrom, PhasesRead]
    rw [validatePhasesFrom, raisesOnly_bind, PhasesRead]
    by_cases hdict : ∃ kvs kvs', phase = .dict kvs ∧ phaseOutline = .dict kvs'
    · obtain ⟨kvs, kvs', rfl, rfl⟩ := hdict
      rw [refuses_validatePhaseHashes h.1]
      constructor
      · rintro ⟨hread, hrest⟩ _ _ ⟨⟩ ⟨⟩ hsealed
        refine ⟨hread hsealed, fun hseq => ?_⟩
        obtain ⟨items, hitems, -⟩ := hread hsealed
        exact (ih h.2).1 (hrest () (validatePhaseHashes_eq_ok.2
          ⟨hsealed, items, hitems, hseq items hitems⟩))
      · intro hread
        refine ⟨fun hsealed => (hread kvs kvs' rfl rfl hsealed).1, fun _ hok => (ih h.2).2 ?_⟩
        obtain ⟨hsealed, items, hitems, hseq⟩ := validatePhaseHashes_eq_ok.1 hok
        refine (hread kvs kvs' rfl rfl hsealed).2 fun items' hitems' => ?_
        obtain rfl := Except.ok.inj (hitems.symm.trans hitems')
        exact hseq
    · rw [validatePhaseHashes_of_not_dict hdict]
      refine iff_of_true ⟨by simp, fun _ h => (nomatch h)⟩ fun kvs kvs' he he' => ?_
      exact absurd ⟨kvs, kvs', he, he'⟩ hdict

omit [Cbor F] [Sha256] [PyFloat F] [PyText F] [PlainCbor F] in
theorem refuses_sameLengthList (value : Val F) (length : ℕ) :
    RaisesOnly Refusal (sameLengthList value length) := by
  unfold sameLengthList
  split
  · split_ifs <;> simp
  · simp

omit [Cbor F] [Sha256] [PyFloat F] [PyText F] [PlainCbor F] in
theorem sameLengthList_eq_ok {value : Val F} {length : ℕ} {vs : List (Val F)} :
    sameLengthList value length = .ok vs ↔ value = .list vs ∧ vs.length = length := by
  unfold sameLengthList
  split
  · split_ifs with hlen
    · simp only [Except.ok.injEq, Val.list.injEq, iff_self_and]
      rintro rfl
      exact hlen
    · simp only [Val.list.injEq, false_iff, not_and]
      rintro rfl
      exact hlen
  · rename_i hno
    simp only [reduceCtorEq, false_iff, not_and]
    exact fun h => absurd h (hno vs)

/-- Every phase of the body whose digests fit has sequences that are found. -/
def HashesRead (body : Dict F) : Prop :=
  ∀ outline phases outlines, field "outline" body = .dict outline →
    (∃ sha, (digestValue (.dict outline) : Except (Error F) Str) = .ok sha ∧
      Val.eq (field "outline_sha256" body) (.str sha) = true) →
    field "phases" body = .list phases → field "phases" outline = .list outlines →
    outlines.length = phases.length → PhasesRead phases outlines

omit [PyText F] in
theorem refuses_validateCompiledInternalHashes {body : Dict F}
    (h : (Val.dict body).encodable = true) :
    RaisesOnly Refusal (validateCompiledInternalHashes body) ↔ HashesRead body := by
  unfold validateCompiledInternalHashes HashesRead
  split
  · rename_i outline houtline
    obtain ⟨sha, hsha, -⟩ := exists_digestValue (houtline ▸ encodable_field "outline" h)
    rw [houtline]
    simp only [raisesOnly_bind, hsha, raisesOnly_ok, true_and, Except.ok.injEq, forall_eq',
      raisesOnly_raiseWhen, refusal_programError, implies_true, raiseWhen_eq_ok, Bool.not_eq_false,
      forall_const, Val.dict.injEq]
    split
    · rename_i phases hphases
      have hencodable : ∀ phase ∈ phases, phase.encodable = true :=
        encodable_list.1 (hphases ▸ encodable_field "phases" h)
      rw [raisesOnly_bind]
      simp only [refuses_sameLengthList, true_and, sameLengthList_eq_ok,
        refuses_validatePhasesFrom hencodable]
      constructor
      · rintro hread _ phases' outlines rfl ⟨sha', hsha', hsealed⟩ hphases' houtlines hlen
        obtain rfl := Except.ok.inj (hsha.symm.trans hsha')
        obtain rfl := Val.list.inj (hphases.symm.trans hphases')
        exact hread hsealed outlines ⟨houtlines, hlen⟩
      · rintro hread hsealed outlines ⟨houtlines, hlen⟩
        exact hread outline phases outlines rfl ⟨sha, hsha, hsealed⟩ hphases houtlines hlen
    · rename_i hno
      refine iff_of_true (by simp) ?_
      rintro _ phases _ - - hphases
      exact absurd hphases (hno phases)
  · rename_i hno
    refine iff_of_true (by simp) fun outline _ _ houtline => absurd houtline (hno outline)

/-! ## The envelope -/

/-- One canonical value that is an envelope around a body of a known format, with its digest. -/
structure Opens (data : Bytes) (p : CompiledProgram F) : Prop where
  envelope : ∃ kvs, Cbor.loads data = .ok (.dict kvs) ∧ Cbor.dumps (.dict kvs) = .ok data ∧
    isEnvelope kvs = true ∧ field "body" kvs = .dict p.body ∧ field "sha256" kvs = .str p.sha256
  known : (Val.eq (field "format" p.body) (.str compiledFormat) &&
    Val.eq (field "version" p.body) (.int 2)) = true
  digest : (digestValue (.dict p.body) : Except (Error F) Str) = .ok p.sha256

omit [PyText F] in
theorem Opens.encodable {data : Bytes} {p : CompiledProgram F} (h : Opens data p) :
    (Val.dict p.body).encodable = true := by
  obtain ⟨kvs, hload, -, -, hbody, -⟩ := h.envelope
  exact hbody ▸ encodable_field "body" (PlainCbor.loads_ok data _ hload).2

omit [PyText F] in
theorem refuses_checkEnvelope {body : Dict F} {supplied : Str}
    (h : (Val.dict body).encodable = true) : RaisesOnly Refusal (checkEnvelope body supplied) ↔
      ((Val.eq (field "format" body) (.str compiledFormat) &&
        Val.eq (field "version" body) (.int 2)) = true →
        (digestValue (.dict body) : Except (Error F) Str) = .ok supplied → HashesRead body) := by
  obtain ⟨sha, hsha, -⟩ := exists_digestValue h
  unfold checkEnvelope
  simp only [raisesOnly_bind, hsha, raisesOnly_ok, true_and, Except.ok.injEq, forall_eq',
    raisesOnly_raiseWhen, refusal_programError, implies_true, raiseWhen_eq_ok, Bool.not_eq_false,
    forall_const, and_true, ne_eq, not_not, refuses_validateCompiledInternalHashes h,
    eq_comm (a := supplied)]

omit [PyText F] in
theorem refuses_fromBytes {data : Bytes} : RaisesOnly Refusal (fromBytes data : Except (Error F) _) ↔
    ∀ p : CompiledProgram F, Opens data p → HashesRead p.body := by
  unfold fromBytes
  split
  · rename_i e he
    refine iff_of_true (by simp) fun p hp => ?_
    obtain ⟨kvs, hload, -⟩ := hp.envelope
    rw [he] at hload
    cases hload
  · rename_i value hvalue
    obtain ⟨hwell, hencodable⟩ := PlainCbor.loads_ok data value hvalue
    obtain ⟨canonical, hdumps⟩ := PlainCbor.dumps_ok value hencodable
    have hopens : ∀ p : CompiledProgram F, Opens data p ↔ data = canonical ∧
        ∃ kvs, value = .dict kvs ∧ isEnvelope kvs = true ∧ field "body" kvs = .dict p.body ∧
          field "sha256" kvs = .str p.sha256 ∧
          (Val.eq (field "format" p.body) (.str compiledFormat) &&
            Val.eq (field "version" p.body) (.int 2)) = true ∧
          (digestValue (.dict p.body) : Except (Error F) Str) = .ok p.sha256 := by
      intro p
      constructor
      · rintro ⟨⟨kvs, hload, hdump, henv, hbody, hsha⟩, hknown, hdigest⟩
        obtain rfl := Except.ok.inj (hvalue.symm.trans hload)
        exact ⟨Except.ok.inj (hdump.symm.trans hdumps), kvs, rfl, henv, hbody, hsha, hknown, hdigest⟩
      · rintro ⟨rfl, kvs, rfl, henv, hbody, hsha, hknown, hdigest⟩
        exact ⟨⟨kvs, hvalue, hdumps, henv, hbody, hsha⟩, hknown, hdigest⟩
    unfold fromValue canonicalCbor
    rw [hdumps]
    simp only [raisesOnly_bind, liftExc_ok, raisesOnly_ok, true_and, Except.ok.injEq, forall_eq',
      raisesOnly_raiseWhen, refusal_programError, implies_true, raiseWhen_eq_ok, ne_eq, not_not,
      forall_const]
    split
    · rename_i kvs
      simp only [raisesOnly_bind, raisesOnly_raiseWhen, refusal_programError, implies_true, true_and,
        raiseWhen_eq_ok, Bool.not_eq_false, forall_const]
      split
      · rename_i body supplied hbody hsupplied
        have hbodyEnc : (Val.dict body).encodable = true := hbody ▸ encodable_field "body" hencodable
        rw [refuses_checkEnvelope hbodyEnc]
        constructor
        · intro hread p hp
          obtain ⟨rfl, _, ⟨⟩, henv, hbody', hsha, hknown, hdigest⟩ := (hopens p).1 hp
          obtain rfl := Val.dict.inj (hbody.symm.trans hbody')
          obtain rfl := Val.str.inj (hsupplied.symm.trans hsha)
          exact hread rfl henv hknown hdigest
        · intro hread hdata henv hknown hdigest
          exact hread ⟨body, supplied⟩ ((hopens _).2
            ⟨hdata, kvs, rfl, henv, hbody, hsupplied, hknown, hdigest⟩)
      · rename_i hno
        refine iff_of_true (by simp) fun p hp => ?_
        obtain ⟨-, _, ⟨⟩, -, hbody, hsha, -⟩ := (hopens p).1 hp
        exact absurd hsha (hno _ _ hbody)
    · rename_i hno
      refine iff_of_true (by simp) fun p hp => ?_
      obtain ⟨-, kvs, rfl, -⟩ := (hopens p).1 hp
      exact absurd rfl (hno kvs)

omit [PyText F] [PlainCbor F] in
theorem fromBytes_eq_ok {data : Bytes} {p : CompiledProgram F} :
    fromBytes data = .ok p ↔ Opens data p ∧ validateCompiledInternalHashes p.body = .ok () := by
  constructor
  · intro h
    unfold fromBytes at h
    split at h
    · cases h
    · rename_i value hvalue
      simp only [fromValue, canonicalCbor, bind_eq_ok, liftExc_eq_ok, raiseWhen_eq_ok, exists_unit,
        ne_eq, not_not] at h
      obtain ⟨_, hdumps, rfl, h⟩ := h
      split at h
      · rename_i kvs
        simp only [bind_eq_ok, raiseWhen_eq_ok, exists_unit, Bool.not_eq_false] at h
        obtain ⟨henv, h⟩ := h
        split at h
        · rename_i body supplied hbody hsupplied
          simp only [checkEnvelope, bind_eq_ok, raiseWhen_eq_ok, exists_unit, Bool.not_eq_false,
            ne_eq, not_not] at h
          obtain ⟨hknown, _, hdigest, rfl, hhashes, h⟩ := h
          obtain rfl := Except.ok.inj h
          exact ⟨⟨⟨kvs, hvalue, hdumps, henv, hbody, hsupplied⟩, hknown, hdigest⟩, hhashes⟩
        · cases h
      · cases h
  · rintro ⟨⟨⟨kvs, hload, hdumps, henv, hbody, hsha⟩, hknown, hdigest⟩, hhashes⟩
    unfold fromBytes
    rw [hload]
    simp only [fromValue, canonicalCbor, bind_eq_ok, liftExc_eq_ok, raiseWhen_eq_ok, exists_unit,
      ne_eq, not_not]
    refine ⟨data, hdumps, rfl, by simpa using henv, ?_⟩
    rw [hbody, hsha]
    simp only [checkEnvelope, bind_eq_ok, raiseWhen_eq_ok, exists_unit, Bool.not_eq_false,
      ne_eq, not_not]
    exact ⟨hknown, p.sha256, hdigest, rfl, hhashes, trivial⟩

end Hashes

/-! ## The template of a body -/

/-- What `_template_from_compiled` expects of a body it cannot project. -/
def Unprojected (e : Exc) : Prop := e = .keyError ∨ e = .typeError

theorem unprojected_getItem (k : String) (v : Val F) : RaisesOnly Unprojected (v.getItem k) := by
  unfold Val.getItem
  split
  · split
    · exact raisesOnly_ok _
    · exact raisesOnly_error.2 (.inl rfl)
  · exact raisesOnly_error.2 (.inr rfl)

theorem unprojected_listItems (v : Val F) : RaisesOnly Unprojected (listItems v) := by
  unfold listItems
  split
  · exact raisesOnly_ok _
  · exact raisesOnly_error.2 (.inr rfl)

theorem unprojected_templateSequence (v : Val F) : RaisesOnly Unprojected (templateSequence v) := by
  unfold templateSequence
  split
  · simp [raisesOnly_bind, unprojected_getItem]
  · exact raisesOnly_error.2 (.inr rfl)

theorem unprojected_templatePhase (v : Val F) : RaisesOnly Unprojected (templatePhase v) := by
  unfold templatePhase
  split
  · have hsequences : ∀ vs : List (Val F), RaisesOnly Unprojected (vs.mapM templateSequence) :=
      fun vs => raisesOnly_mapM fun v _ => unprojected_templateSequence v
    simp [raisesOnly_bind, unprojected_getItem, unprojected_listItems, hsequences]
  · exact raisesOnly_error.2 (.inr rfl)

theorem unprojected_templateOf (body : Dict F) : RaisesOnly Unprojected (templateOf body) := by
  have hphases : ∀ vs : List (Val F), RaisesOnly Unprojected (vs.mapM templatePhase) :=
    fun vs => raisesOnly_mapM fun v _ => unprojected_templatePhase v
  unfold templateOf
  simp [raisesOnly_bind, unprojected_getItem, unprojected_listItems, hphases]

/-- The projection itself raises nothing else. -/
theorem refuses_templateFromCompiled (body : Dict F) :
    RaisesOnly Refusal (templateFromCompiled body) := by
  unfold templateFromCompiled
  cases h : templateOf body with
  | ok template => exact raisesOnly_ok _
  | error e =>
    obtain rfl | rfl := unprojected_templateOf body e h
    · exact raisesOnly_error.2 trivial
    · exact raisesOnly_error.2 trivial

theorem templateFromCompiled_eq_ok {body : Dict F} {template : Val F} :
    templateFromCompiled body = .ok template ↔ templateOf body = .ok template := by
  unfold templateFromCompiled
  split
  · rename_i h
    rw [h]
    simp
  all_goals
    rename_i h
    rw [h]
    simp

section Template

variable [PyFloat F]

theorem fieldsSortable_dictOf {kvs : List (String × Val F)} {names : List String}
    (h : ∀ k ∈ kvs.map Prod.fst, k ∈ names) : FieldsSortable names (dictOf kvs) := by
  rw [dictOf, fieldsSortable_dict]
  have hnil : ((entries kvs).map Prod.fst).filter
      (fun k => !names.any fun r => Key.eq (.str (py r)) k) = [] := by
    rw [List.filter_eq_nil_iff]
    intro k hk
    simp only [entries, List.map_map, List.mem_map, Function.comp_apply] at hk
    obtain ⟨p, hp, rfl⟩ := hk
    rw [Bool.not_eq_true', Bool.not_eq_false, List.any_eq_true]
    exact ⟨p.1, h _ (List.mem_map_of_mem hp), Key.eq_str_iff.2 rfl⟩
  rw [hnil]
  exact .nil

/-- The projection names the fields of a sequence itself. -/
theorem sequenceSortable_of_templateSequence {sequence s : Val F}
    (h : templateSequence sequence = .ok s) : SequenceSortable s := by
  intro _
  unfold templateSequence at h
  split at h
  · simp only [bind_eq_ok] at h
    obtain ⟨_, -, _, -, _, -, _, -, h⟩ := h
    rw [← Except.ok.inj h]
    exact fieldsSortable_dictOf (by simp)
  · cases h

theorem phaseSortable_of_templatePhase {phase p : Val F} (h : templatePhase phase = .ok p) :
    PhaseSortable p := by
  unfold templatePhase at h
  split at h
  · simp only [bind_eq_ok] at h
    obtain ⟨_, -, _, -, ss, hss, _, -, _, -, _, -, h⟩ := h
    rw [← Except.ok.inj h]
    refine ⟨fun _ => fieldsSortable_dictOf (by simp), ?_⟩
    rintro _ items ⟨⟩ hitems s hs
    obtain rfl : ss = items := by simpa [field] using hitems
    obtain ⟨sequence, -, hsequence⟩ := (mapM_eq_ok.1 hss).exists_of_mem_right hs
    exact sequenceSortable_of_templateSequence hsequence
  · cases h

theorem templateSortable_of_templateOf {body : Dict F} {template : Val F}
    (h : templateOf body = .ok template) : TemplateSortable template := by
  simp only [templateOf, bind_eq_ok] at h
  obtain ⟨_, -, _, -, ps, hps, _, -, _, -, h⟩ := h
  obtain rfl := Except.ok.inj h
  rintro _ items ⟨⟩ hitems p hp
  obtain rfl : ps = items := by simpa [field] using hitems
  obtain ⟨phase, -, hphase⟩ := (mapM_eq_ok.1 hps).exists_of_mem_right hp
  exact phaseSortable_of_templatePhase hphase

end Template

/-! ## Validation -/

section Validation

variable [Cbor F] [Sha256] [PyFloat F] [PyText F]

/-- The names in the body have a text, as far as the validation comes to them. -/
def NamesRead (R : Registry F) (p : CompiledProgram F) : Prop :=
  ∃ serverId, p.serverId = .ok serverId ∧ (serverId = R.serverId →
    ∃ rootId, p.rootId = .ok rootId ∧ ∀ current, R.manifestHash rootId = .ok current →
      ∃ manifestHash, p.manifestHash = .ok manifestHash)

/-- The names in the body are those of the registry. -/
def NamesFit (R : Registry F) (p : CompiledProgram F) : Prop :=
  p.serverId = .ok R.serverId ∧ ∃ rootId manifestHash, p.rootId = .ok rootId ∧
    R.manifestHash rootId = .ok manifestHash ∧ p.manifestHash = .ok manifestHash

/-- Nothing but a `ProgramError` or a `RegistryError` can come of the bytes: in a body whose digests
fit, as far as they are looked at, the sequences are found, the names have a text and the template
that the body is compiled from again is regular. -/
structure ArtifactRegular (R : Registry F) (data : Bytes) : Prop where
  hashes : ∀ p : CompiledProgram F, Opens data p → HashesRead p.body
  names : ∀ p : CompiledProgram F, Opens data p → validateCompiledInternalHashes p.body = .ok () →
    NamesRead R p
  template : ∀ (p : CompiledProgram F) template, Opens data p →
    validateCompiledInternalHashes p.body = .ok () → NamesFit R p →
    templateOf p.body = .ok template → TemplateRegular R template

variable {R : Registry F} [PlainCbor F] [PositiveDurations F]

theorem refuses_validate (hR : R.check = .ok ()) {data : Bytes} {p : CompiledProgram F}
    (hopens : Opens data p) (hhashes : validateCompiledInternalHashes p.body = .ok ()) :
    RaisesOnly Refusal (validateForCurrentRegistry R p) ↔ NamesRead R p ∧ (NamesFit R p →
      ∀ template, templateOf p.body = .ok template → TemplateRegular R template) := by
  have hserver : RaisesOnly Refusal p.serverId ↔ ∃ s, p.serverId = .ok s := by
    simp only [CompiledProgram.serverId, refuses_liftExc, liftExc_eq_ok]
  have hroot : RaisesOnly Refusal p.rootId ↔ ∃ s, p.rootId = .ok s := by
    simp only [CompiledProgram.rootId, refuses_liftExc, liftExc_eq_ok]
  have hmanifest : RaisesOnly Refusal p.manifestHash ↔ ∃ s, p.manifestHash = .ok s := by
    simp only [CompiledProgram.manifestHash, refuses_liftExc, liftExc_eq_ok]
  have hcompile : ∀ template, templateOf p.body = .ok template →
      (RaisesOnly Refusal (compile R template) ↔ TemplateRegular R template) :=
    fun template h => refuses_compile hR (templateSortable_of_templateOf h)
  unfold validateForCurrentRegistry
  simp only [raisesOnly_bind, hopens.digest, raisesOnly_ok, true_and, Except.ok.injEq, forall_eq',
    raisesOnly_raiseWhen, refusal_programError, implies_true, raiseWhen_eq_ok, ne_eq, not_not,
    forall_const, hhashes, hserver, hroot, hmanifest, refuses_manifestHash hR,
    refuses_templateFromCompiled, templateFromCompiled_eq_ok, and_true]
  constructor
  · rintro ⟨⟨serverId, hs⟩, hrest⟩
    refine ⟨⟨serverId, hs, fun he => ?_⟩, ?_⟩
    · obtain ⟨⟨rootId, hr⟩, hroots⟩ := hrest serverId hs he
      exact ⟨rootId, hr, fun current hcurrent => (hroots rootId hr current hcurrent).1⟩
    · rintro ⟨hs', rootId, hash, hr, hcurrent, hm⟩ template ht
      obtain ⟨-, hroots⟩ := hrest R.serverId hs' rfl
      exact (hcompile template ht).1 ((hroots rootId hr hash hcurrent).2 hash hm rfl template ht)
  · rintro ⟨⟨serverId, hs, hread⟩, htemplate⟩
    refine ⟨⟨serverId, hs⟩, fun serverId' hs' he => ?_⟩
    obtain rfl := Except.ok.inj (hs.symm.trans hs')
    obtain ⟨rootId, hr, hhash⟩ := hread he
    refine ⟨⟨rootId, hr⟩, fun rootId' hr' current hcurrent => ?_⟩
    obtain rfl := Except.ok.inj (hr.symm.trans hr')
    refine ⟨hhash current hcurrent, fun hash hm hfit template ht => ?_⟩
    exact (hcompile template ht).2
      (htemplate ⟨he ▸ hs, rootId, current, hr, hcurrent, hfit ▸ hm⟩ template ht)

/-- Whatever `from_bytes` and the validation behind it raise is a `ProgramError` or a `RegistryError`
exactly where the artifact is regular. -/
theorem artifact_refuses_iff (hR : R.check = .ok ()) (data : Bytes) :
    (RaisesOnly Refusal do
      let p ← (fromBytes data : Except (Error F) (CompiledProgram F))
      validateForCurrentRegistry R p) ↔ ArtifactRegular R data := by
  rw [raisesOnly_bind, refuses_fromBytes]
  constructor
  · rintro ⟨hhashes, hvalidate⟩
    refine ⟨hhashes, fun p hopens hok => ?_, fun p template hopens hok hfit ht => ?_⟩
    · exact ((refuses_validate hR hopens hok).1 (hvalidate p (fromBytes_eq_ok.2 ⟨hopens, hok⟩))).1
    · exact ((refuses_validate hR hopens hok).1
        (hvalidate p (fromBytes_eq_ok.2 ⟨hopens, hok⟩))).2 hfit template ht
  · intro h
    refine ⟨h.hashes, fun p hp => ?_⟩
    obtain ⟨hopens, hok⟩ := fromBytes_eq_ok.1 hp
    exact (refuses_validate hR hopens hok).2
      ⟨h.names p hopens hok, fun hfit template ht => h.template p template hopens hok hfit ht⟩

end Validation

/-! ### A body without a server -/

section Demo

local instance untrustedHash : Sha256 := lengthHash

local instance untrustedCodec : Cbor ℚ := strictCodec

local instance untrustedPlain : PlainCbor ℚ := plainCbor_strictCodec

/-- A body without names whose one phase has these sequences, with the digests the sender recomputes. -/
def craftedBody (sequences : Val ℚ) : Except (Error ℚ) (Dict ℚ) := do
  let phase := [("sequences", sequences)]
  let phaseSha ← digestValue (dictOf phase)
  let outline := dictOf [("phases", .list [dictOf [("payload_sha256", .str phaseSha)]])]
  let outlineSha ← digestValue outline
  .ok (entries [("format", .str compiledFormat), ("version", .int 2), ("outline", outline),
    ("outline_sha256", .str outlineSha),
    ("phases", .list [dictOf (phase ++ [("sha256", Val.str phaseSha)])])])

/-- The artifact around that body. -/
def craftedArtifact (sequences : Val ℚ) : Bytes :=
  match (do
    let body ← craftedBody sequences
    let sha256 ← digestValue (.dict body)
    CompiledProgram.toBytes ⟨body, sha256⟩) with
  | .ok data => data
  | .error _ => []

/-- What decoding and validating raises besides the refusals. -/
def escapedValidation (R : Registry ℚ) (data : Bytes) : Option Exc :=
  escaped do
    let p ← (fromBytes data : Except (Error ℚ) (CompiledProgram ℚ))
    validateForCurrentRegistry R p

set_option maxRecDepth 20000 in
/-- A phase without sequences in a body without `server_id`, and a sequence that is no object. -/
theorem artifact_refuses_counterexample : demoRegistry.check.isOk = true ∧
    escapedValidation demoRegistry (craftedArtifact (.list [])) = some .keyError ∧
    escapedValidation demoRegistry (craftedArtifact (.list [.int 1])) = some .attributeError := by
  refine ⟨by decide +kernel, by decide +kernel, by decide +kernel⟩

set_option maxRecDepth 20000 in
theorem artifact_refuses_nameless :
    ¬ArtifactRegular demoRegistry (craftedArtifact (.list [])) := by
  have hok : demoRegistry.check.isOk = true := by decide +kernel
  have hescaped : escapedValidation demoRegistry (craftedArtifact (.list [])) = some .keyError := by
    decide +kernel
  obtain ⟨_, hcheck⟩ := exists_of_isOk hok
  rw [← artifact_refuses_iff hcheck]
  exact not_refuses_of_escaped hescaped

end Demo

end RemoteRobot
