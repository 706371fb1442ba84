import RemoteRobot.Program.Dense
import RemoteRobot.Program.Encodable

/-!
# Exceptions that escape the compiler

`compile` refuses most templates with a `ProgramError` or a `RegistryError`.  Other exceptions escape
where the fields of an object cannot be sorted, where a schema or a reference has no text, where a
segment is too long for a float and where the ID of a phase or of the program has an unpaired
surrogate.  `TemplateRegular` says that the compiler comes to none of these, and nothing else escapes
(`refuses_compile`).
-/

namespace RemoteRobot

open Py Except

variable {F : Type}

/-- A `ProgramError` or a `RegistryError`. -/
def Refusal : Error F → Prop
  | .program _ | .registry _ => True
  | _ => False

@[simp] theorem refusal_programError (code message : String) (path : String) (args : List (Val F))
    (details : List (String × Val F)) : Refusal (programError code message path args details) :=
  trivial

@[simp] theorem refusal_registry (m : Message F) : Refusal (.registry m) := trivial

@[simp] theorem not_refusal_builtin (e : Exc) : ¬Refusal (.builtin e : Error F) := id

theorem refuses_liftExc {α : Type} {x : Except Exc α} :
    RaisesOnly Refusal (liftExc x : Except (Error F) α) ↔ ∃ a, x = .ok a := by
  cases x with
  | error e => simp
  | ok a => simp

theorem refuses_liftExc_bind {α β : Type} {x : Except Exc α} {f : α → Except (Error F) β} :
    RaisesOnly Refusal (liftExc x >>= f) ↔ ∃ a, x = .ok a ∧ RaisesOnly Refusal (f a) := by
  rw [raisesOnly_bind, refuses_liftExc]
  constructor
  · rintro ⟨⟨a, ha⟩, hf⟩
    exact ⟨a, ha, hf a (by rw [ha]; rfl)⟩
  · rintro ⟨a, rfl, ha⟩
    exact ⟨⟨a, rfl⟩, fun _ he => Except.ok.inj he ▸ ha⟩

theorem refuses_raiseWhen_bind {α : Type} {condition : Prop} [Decidable condition] {e : Error F}
    {f : Unit → Except (Error F) α} : RaisesOnly Refusal (raiseWhen condition e >>= f) ↔
      (condition → Refusal e) ∧ (¬condition → RaisesOnly Refusal (f ())) := by
  rw [raisesOnly_bind, raisesOnly_raiseWhen, forall_unit, raiseWhen_eq_ok]

theorem refuses_shortId (value : Val F) (path : String) : RaisesOnly Refusal (shortId value path) := by
  unfold shortId
  split
  · split_ifs <;> simp
  · simp

theorem refuses_rolePath (value : Val F) (path : String) : RaisesOnly Refusal (rolePath value path) := by
  unfold rolePath
  rw [raisesOnly_bind]
  refine ⟨refuses_shortId value path, fun result _ => ?_⟩
  simp [raisesOnly_bind]

/-! ## Samples -/

/-- A duration of at least a microsecond is no zero, and neither is its square. -/
class PositiveDurations (F : Type) [PyFloat F] : Prop where
  div_ok : ∀ (n : ℤ) (d x : F), 0 < n → PyFloat.truediv n 1000000 = .ok d →
    (∃ y, PyFloat.div x d = .ok y) ∧ ∃ y, PyFloat.div x (PyFloat.mul d d) = .ok y

instance : PositiveDurations ℚ where
  div_ok n d x hn hd := by
    have hd : (Except.ok ((n : ℚ) / (1000000 : ℤ)) : Except Exc ℚ) = .ok d := hd
    have hpos : d ≠ 0 := by
      rw [← Except.ok.inj hd]
      have : (n : ℚ) ≠ 0 := by exact_mod_cast hn.ne'
      exact div_ne_zero this (by norm_num)
    exact ⟨⟨x / d, if_neg hpos⟩, x / (d * d), if_neg (mul_ne_zero hpos hpos)⟩

section Samples

variable [PyFloat F]

/-- The keys can be listed, and those that are none of the names can be compared with each other. -/
def FieldsSortable (names : List String) (value : Val F) : Prop :=
  ∃ keys, value.toSet = .ok keys ∧
    (keys.filter fun k => !names.any fun r => Key.eq (.str (py r)) k).Pairwise
      fun a b => Key.comparable a b = true

theorem exists_sortedKeys {ks : List (Key F)} : (∃ sorted, sortedKeys ks = .ok sorted) ↔
    ks.Pairwise fun a b => Key.comparable a b = true := by
  unfold sortedKeys
  split_ifs with h
  · exact iff_of_true ⟨_, rfl⟩ h
  · exact iff_of_false (fun ⟨_, he⟩ => (nomatch he)) h

theorem refuses_requireExactFields {value : Val F} {required optional : List String}
    {path : String} : RaisesOnly Refusal (requireExactFields value required optional path) ↔
      FieldsSortable (required ++ optional) value := by
  unfold requireExactFields FieldsSortable
  cases value.toSet with
  | error e => simp [raisesOnly_bind]
  | ok keys =>
    simp only [liftExc_ok, raisesOnly_bind, raisesOnly_ok, true_and, Except.ok.injEq, forall_eq',
      exists_eq_left']
    split_ifs with hexact
    · rw [List.isEmpty_iff] at hexact
      rw [hexact.2]
      simp
    · rw [raisesOnly_bind, refuses_liftExc, exists_sortedKeys]
      simp

theorem fieldsSortable_dict {names : List String} {kvs : Dict F} :
    FieldsSortable names (.dict kvs) ↔
      ((kvs.map Prod.fst).filter fun k => !names.any fun r => Key.eq (.str (py r)) k).Pairwise
        fun a b => Key.comparable a b = true := by
  unfold FieldsSortable
  simp [Val.toSet_dict]

/-- The set of `[null, null]` has one element, and that alone can be sorted. -/
example : FieldsSortable ["format"] (.list [.none, .none] : Val ℚ) :=
  ⟨[.none], rfl, List.pairwise_singleton _ _⟩

/-- The sample comes to the check of its rates: it is read, later than the one before and within the
limits. -/
structure ReachesRates (axes : List (DenseAxis F)) (reference commandSchema : Str)
    (p : Sample F) (raw : Val F) (s : Sample F) : Prop where
  read : ReadSample readValue axes.length raw s
  time : 0 ≤ s.tUs ∧ p.tUs < s.tUs
  finite : s.values.all PyFloat.isFinite = true
  limits : reference = py "absolute" → ∀ q ∈ axes.zip s.values, outsideBounds q.1 q.2 = false
  normalized : commandSchema = normalizedPositionSchema →
    s.values.any (outsideNormalized reference) = false

/-- The unknown fields of a sample can be sorted, and the time since the one before fits a float. -/
structure SampleRegular (axes : List (DenseAxis F)) (reference commandSchema : Str)
    (previous : Option (Sample F)) (raw : Val F) : Prop where
  fields : ∀ kvs, raw = .dict kvs → FieldsSortable ["t_us", "values"] raw
  duration : ∀ p s, previous = some p → ReachesRates axes reference commandSchema p raw s →
    ∃ d : F, PyFloat.truediv (s.tUs - p.tUs) 1000000 = .ok d

variable {axes : List (DenseAxis F)} {reference commandSchema : Str} {path : String}

omit [PyFloat F] in
theorem refuses_sampleTime (value : Val F) (previous : Option (Sample F)) (path : String) :
    RaisesOnly Refusal (sampleTime value previous path) := by
  unfold sampleTime
  split
  · simp [raisesOnly_bind]
  · simp

theorem refuses_sampleValues (value : Val F) (axisCount : ℕ) (path : String) :
    RaisesOnly Refusal (sampleValues value axisCount path) := by
  unfold sampleValues
  split
  · rename_i raw
    have hfloats : RaisesOnly Refusal (floatValues raw path) := by
      unfold floatValues
      split <;> simp
    simp [raisesOnly_bind, hfloats]
  · simp

theorem refuses_checkLimits (values : List F) : RaisesOnly Refusal (checkLimits path axes values) := by
  induction axes generalizing values with
  | nil => simp [checkLimits]
  | cons axis axes ih =>
    cases values with
    | nil => simp [checkLimits]
    | cons value values =>
      unfold checkLimits
      split_ifs
      · simp
      · exact ih values

/-- The rates themselves raise nothing else where the duration is no zero. -/
theorem refuses_validateRatesFrom [PositiveDurations F] {n : ℤ} {d : F} (hn : 0 < n)
    (hd : PyFloat.truediv n 1000000 = .ok d) (before after : List F) :
    RaisesOnly Refusal (validateRatesFrom d path axes before after) := by
  induction axes generalizing before after with
  | nil => simp [validateRatesFrom]
  | cons axis axes ih =>
    obtain _ | ⟨start, before⟩ := before
    · simp [validateRatesFrom]
    obtain _ | ⟨stop, after⟩ := after
    · simp [validateRatesFrom]
    rw [validateRatesFrom, raisesOnly_bind]
    refine ⟨?_, fun _ _ => ih before after⟩
    unfold validateAxisRates
    have hdiv := fun x : F => PositiveDurations.div_ok n d x hn hd
    simp [raisesOnly_bind, refuses_liftExc, hdiv]

omit [PyFloat F] in
theorem sampleTime_eq_some {p : Sample F} {value : Val F} {t : ℤ} :
    sampleTime value (some p) path = .ok t ↔ value = .int t ∧ 0 ≤ t ∧ p.tUs < t := by
  rw [sampleTime_eq_ok_iff]
  refine and_congr_right fun _ => ?_
  simp [sampleTime, bind_eq_ok, raiseWhen_eq_ok]

/-- Of the checks of a sample only the rates can raise anything else. -/
theorem refuses_checkSample_some [PositiveDurations F] {p s : Sample F} (htime : p.tUs < s.tUs) :
    RaisesOnly Refusal (checkSample axes reference commandSchema path (some p) s) ↔
      ((reference = py "absolute" → ∀ q ∈ axes.zip s.values, outsideBounds q.1 q.2 = false) →
        (commandSchema = normalizedPositionSchema →
          s.values.any (outsideNormalized reference) = false) →
        ∃ d : F, PyFloat.truediv (s.tUs - p.tUs) 1000000 = .ok d) := by
  have hrates : RaisesOnly Refusal (validateSegmentRates axes p.values s.values (s.tUs - p.tUs) path) ↔
      ∃ d : F, PyFloat.truediv (s.tUs - p.tUs) 1000000 = .ok d := by
    rw [validateSegmentRates, raisesOnly_bind, refuses_liftExc]
    refine and_iff_left_of_imp fun _ d hd => ?_
    exact refuses_validateRatesFrom (by omega) (liftExc_eq_ok.1 hd) _ _
  have hnormalized : ¬(commandSchema = normalizedPositionSchema ∧
      s.values.any (outsideNormalized reference) = true) ↔ (commandSchema = normalizedPositionSchema →
        s.values.any (outsideNormalized reference) = false) := by
    rw [not_and, Bool.not_eq_true]
  unfold checkSample
  by_cases habs : reference = py "absolute"
  · simp only [habs, if_true, raisesOnly_bind, raisesOnly_raiseWhen, refusal_programError,
      implies_true, true_and, refuses_checkLimits, forall_unit, raiseWhen_eq_ok, checkLimits_eq_ok,
      hrates, forall_const]
    simp
  · simp only [habs, if_false, raisesOnly_bind, raisesOnly_raiseWhen, refusal_programError,
      implies_true, true_and, raisesOnly_ok, forall_unit, raiseWhen_eq_ok, hrates, hnormalized]
    simp

theorem refuses_checkSample_none {s : Sample F} :
    RaisesOnly Refusal (checkSample axes reference commandSchema path none s) := by
  unfold checkSample
  split_ifs <;> simp [raisesOnly_bind, refuses_checkLimits]

/-- One turn of the loop over the samples. -/
theorem refuses_compileSample [PositiveDurations F] {previous : Option (Sample F)} {raw : Val F} :
    RaisesOnly Refusal (compileSample axes reference commandSchema path previous raw) ↔
      SampleRegular axes reference commandSchema previous raw := by
  unfold compileSample
  by_cases hdict : isDict raw = true
  swap
  · have hno : ∀ kvs, raw ≠ .dict kvs := by
      rintro kvs rfl
      exact hdict rfl
    refine iff_of_true ?_ ⟨fun kvs he => absurd he (hno kvs), fun p s _ hs => ?_⟩
    · simp [raisesOnly_bind, raiseWhen_eq_ok, hdict]
    · obtain ⟨d, -, he, -⟩ := hs.read.object
      exact absurd he (hno d)
  obtain ⟨d, rfl⟩ := isDict_eq_true.1 hdict
  simp only [raisesOnly_bind, raisesOnly_raiseWhen, refusal_programError, implies_true, true_and,
    forall_unit, raiseWhen_eq_ok, hdict, refuses_requireExactFields, List.append_nil,
    refuses_liftExc, liftExc_eq_ok, refuses_sampleTime, refuses_sampleValues, raisesOnly_ok, and_true,
    sampleFields_eq_ok, Bool.not_eq_false, forall_const]
  constructor
  · rintro ⟨hfields, hrest⟩
    refine ⟨fun _ _ => hfields, ?_⟩
    rintro p s rfl ⟨⟨⟨_, vs, ⟨⟩, hkeys, ht, hv, hvs⟩, hlen⟩, htime, hfinite, hlimits, hnormalized⟩
    have hcheck := ((hrest hkeys).2 _ (getItem_of_lookup ht) _ (sampleTime_eq_some.2 ⟨rfl, htime⟩)).2 _
      (getItem_of_lookup hv) _ (sampleValues_eq_ok_iff.2 ⟨⟨vs, rfl, hvs⟩, hlen, hfinite⟩)
    exact (refuses_checkSample_some htime.2).1 hcheck hlimits hnormalized
  · rintro ⟨hfields, hduration⟩
    refine ⟨hfields d rfl, fun hkeys => ⟨exists_getItem ((hkeys _).2 (.inl rfl)), ?_⟩⟩
    intro v hv t ht
    refine ⟨exists_getItem ((hkeys _).2 (.inr rfl)), fun w hw values hvalues => ?_⟩
    cases previous with
    | none => exact refuses_checkSample_none
    | some p =>
      obtain ⟨rfl, htime⟩ := sampleTime_eq_some.1 ht
      obtain ⟨⟨vs, rfl, hvs⟩, hlen, hfinite⟩ := sampleValues_eq_ok_iff.1 hvalues
      refine (refuses_checkSample_some htime.2).2 fun hlimits hnormalized => ?_
      exact hduration p ⟨t, values⟩ rfl ⟨⟨⟨d, vs, rfl, hkeys, lookup_of_getItem hv,
        lookup_of_getItem hw, hvs⟩, hlen⟩, htime, hfinite, hlimits, hnormalized⟩

/-- Every sample that is come to is regular. -/
def SamplesRegular (axes : List (DenseAxis F)) (reference commandSchema : Str) (path : String) :
    ℕ → Option (Sample F) → List (Val F) → Prop
  | _, _, [] => True
  | index, previous, raw :: rest =>
    SampleRegular axes reference commandSchema previous raw ∧
      ∀ s, compileSample axes reference commandSchema
          (path ++ ".samples[" ++ toString index ++ "]") previous raw = .ok s →
        SamplesRegular axes reference commandSchema path (index + 1) (some s) rest

theorem refuses_compileSamplesFrom [PositiveDurations F] {index : ℕ} {previous : Option (Sample F)}
    {raws : List (Val F)} :
    RaisesOnly Refusal (compileSamplesFrom axes reference commandSchema path index previous raws) ↔
      SamplesRegular axes reference commandSchema path index previous raws := by
  induction raws generalizing index previous with
  | nil => simp [compileSamplesFrom, SamplesRegular]
  | cons raw raws ih =>
    simp only [compileSamplesFrom, SamplesRegular, raisesOnly_bind, refuses_compileSample, ih,
      raisesOnly_ok, implies_true, and_true]

theorem refuses_compileDenseSamples [PositiveDurations F] {raw : Val F} :
    RaisesOnly Refusal (compileDenseSamples raw axes reference commandSchema path) ↔
      ∀ raws, raw = .list raws → 2 ≤ raws.length →
        SamplesRegular axes reference commandSchema path 0 none raws := by
  unfold compileDenseSamples
  split
  · rename_i raws
    split_ifs with hlen
    · refine iff_of_true (by simp) ?_
      rintro _ ⟨⟩ hlen'
      omega
    · rw [refuses_compileSamplesFrom]
      refine ⟨?_, fun h => h raws rfl (by omega)⟩
      rintro h _ ⟨⟩ -
      exact h
  · rename_i hno
    exact iff_of_true (by simp) fun raws he => absurd he (hno raws)

end Samples

/-! ## The registry -/

section Registered

variable [Cbor F] [Sha256] [PyFloat F] [PyText F] {R : Registry F}

omit [Cbor F] [Sha256] [PyFloat F] [PyText F] in
theorem refuses_node (nodeId : Str) : RaisesOnly Refusal (R.node nodeId) := by
  unfold Registry.node
  split <;> simp

omit [Cbor F] [Sha256] [PyFloat F] [PyText F] in
theorem refuses_descend (path : Str) (n : ControlNode F) (segments : List Str) :
    RaisesOnly Refusal (R.descend path n segments) := by
  induction segments generalizing n with
  | nil => cases n <;> simp [Registry.descend]
  | cons role segments ih =>
    cases n with
    | physical p => simp [Registry.descend]
    | composite c =>
      unfold Registry.descend
      split
      · simp
      · exact raisesOnly_bind.2 ⟨refuses_node _, fun next _ => ih next⟩

omit [Cbor F] [Sha256] [PyFloat F] [PyText F] in
theorem refuses_resolveGroup (rootId path : Str) : RaisesOnly Refusal (R.resolveGroup rootId path) := by
  unfold Registry.resolveGroup
  split_ifs
  · simp
  · simp
  · refine raisesOnly_bind.2 ⟨refuses_node _, fun root _ => raisesOnly_bind.2
      ⟨refuses_descend _ _ _, fun ⟨current, rest⟩ _ => ?_⟩⟩
    dsimp only
    split
    · split
      · simp
      · simp
    · simp

end Registered

/-! ## Sequences -/

section Compiled

variable [Cbor F] [Sha256] [PyFloat F] [PyText F] {R : Registry F} {rootId : Str}

omit [PyFloat F] [PyText F] in
theorem refuses_digestValue [PyFloat F] [PlainCbor F] {v : Val F} :
    RaisesOnly Refusal (digestValue v : Except (Error F) Str) ↔ v.encodable = true := by
  by_cases hv : v.encodable = true
  · obtain ⟨sha, hsha, -⟩ := exists_digestValue hv
    exact iff_of_true (raisesOnly_of_eq_ok hsha) hv
  · refine iff_of_false (fun h => ?_) hv
    unfold digestValue at h
    rw [PlainCbor.dumps_error v (by simpa using hv)] at h
    exact not_refusal_builtin _ (h _ rfl)

omit [Cbor F] [Sha256] [PyText F] in
theorem getItem_of_exact {kvs : Dict F} {required optional : List String} {path : String}
    (h : requireExactFields (.dict kvs) required optional path = .ok ()) {k : String}
    (hk : k ∈ required) : (Val.dict kvs).getItem k = .ok (field k kvs) := by
  unfold requireExactFields at h
  rw [Val.toSet_dict, liftExc_ok] at h
  have h : (if _ ∧ _ then _ else _) = _ := h
  split_ifs at h with hc
  · have hhas := List.filter_eq_nil_iff.1 hc.1 k hk
    rw [Bool.not_eq_true', Bool.not_eq_false] at hhas
    obtain ⟨v, hv⟩ := exists_getItem (hasStr_iff.1 hhas)
    rw [hv]
    unfold field
    rw [lookup_of_getItem hv]
    rfl
  · obtain ⟨_, -, h⟩ := bind_eq_ok.1 h
    cases h

/-- A sequence with a role path of a group. -/
structure ReachesGroup (R : Registry F) (rootId : Str) (path : String) (kvs : Dict F) (role : Str)
    (resolved : ResolvedGroup F) : Prop where
  fields : requireExactFields (.dict kvs) ["group", "command_schema", "reference", "samples"] []
    path = .ok ()
  rolePath : rolePath (field "group" kvs) (path ++ ".group") = .ok role
  resolve : R.resolveGroup rootId role = .ok resolved

/-- The schema and the reference have a text and the samples are regular, as far as the compiler
comes to them. -/
def SequenceRegular (R : Registry F) (rootId : Str) (path : String) (raw : Val F) : Prop :=
  ∀ kvs role resolved, raw = .dict kvs → ReachesGroup R rootId path kvs role resolved →
    ∃ commandSchema, (field "command_schema" kvs).pyStr = .ok commandSchema ∧
      (commandSchema ∈ resolved.group.commandSchemas →
        commandSchema = positionSchema ∨ commandSchema = normalizedPositionSchema →
        ∃ reference, (field "reference" kvs).pyStr = .ok reference ∧
          (reference = py "absolute" ∨ reference = py "phase_start_measured" →
            (normalizeResolution resolved).2.isEmpty = false →
            ∀ raws, field "samples" kvs = .list raws → 2 ≤ raws.length →
              SamplesRegular (normalizeResolution resolved).2 reference commandSchema path 0 none raws))

omit [Cbor F] [Sha256] in
theorem refuses_compileSequence [PositiveDurations F] {raw : Val F} {path : String}
    (hsort : isDict raw = true →
      FieldsSortable ["group", "command_schema", "reference", "samples"] raw) :
    RaisesOnly Refusal (compileSequence R rootId raw path) ↔
      SequenceRegular R rootId path raw := by
  unfold compileSequence
  by_cases hdict : isDict raw = true
  swap
  · refine iff_of_true (by simp [raisesOnly_bind, raiseWhen_eq_ok, hdict]) ?_
    rintro kvs role resolved rfl
    exact absurd rfl hdict
  obtain ⟨kvs, rfl⟩ := isDict_eq_true.1 hdict
  rw [refuses_raiseWhen_bind, raisesOnly_bind, refuses_requireExactFields, List.append_nil, forall_unit]
  simp only [refusal_programError, implies_true, hdict, Bool.true_eq_false, not_false_eq_true,
    forall_const, true_and, hsort hdict]
  by_cases hexact : requireExactFields (.dict kvs) ["group", "command_schema", "reference", "samples"] []
      path = .ok ()
  swap
  · refine iff_of_true (fun he => absurd he hexact) ?_
    rintro _ role resolved ⟨⟩ hreach
    exact absurd hreach.fields hexact
  have hget : ∀ k ∈ ["group", "command_schema", "reference", "samples"],
    (Val.dict kvs).getItem k = .ok (field k kvs) := fun k hk => getItem_of_exact hexact hk
  simp only [List.forall_mem_cons] at hget
  obtain ⟨hgroup, hschema, hreference, hsamples, -⟩ := hget
  simp only [hexact, hgroup, hschema, hreference, hsamples, forall_const, refuses_liftExc_bind,
    refuses_raiseWhen_bind, refusal_programError, implies_true, true_and, Except.ok.injEq,
    exists_eq_left', Except.bind, raisesOnly_bind_of (refuses_rolePath _ _),
    raisesOnly_bind_of (refuses_resolveGroup _ _), not_and_or, not_not, Bool.not_eq_true,
    raisesOnly_bind_ok, refuses_compileDenseSamples]
  constructor
  · rintro h _ role resolved ⟨⟩ hreach
    exact h role hreach.rolePath resolved hreach.resolve
  · exact fun h role hrole resolved hresolve => h kvs role resolved rfl ⟨hexact, hrole, hresolve⟩

end Compiled

/-! ## Phases -/

section Phases

variable [Cbor F] [Sha256] [PyFloat F] [PyText F]

/-- Every sequence that is come to is regular. -/
def SequencesRegular (R : Registry F) (rootId : Str) (path : String) :
    ℕ → List ResolvedTarget → List (Val F) → Prop
  | _, _, [] => True
  | index, targets, raw :: rest =>
    SequenceRegular R rootId (path ++ ".sequences[" ++ toString index ++ "]") raw ∧
      ∀ s, compileSequence R rootId raw (path ++ ".sequences[" ++ toString index ++ "]") = .ok s →
        s.resolvedTarget ∉ targets →
        SequencesRegular R rootId path (index + 1) (s.resolvedTarget :: targets) rest

/-- A phase with sequences. -/
structure ReachesSequences (path : String) (kvs : Dict F) (phaseId : Str) (items : List (Val F)) :
    Prop where
  fields : requireExactFields (.dict kvs) ["phase_id", "sequences"] ["completion", "transitions"]
    path = .ok ()
  phaseId : shortId (field "phase_id" kvs) (path ++ ".phase_id") = .ok phaseId
  completion : Val.eq (getOr "completion" defaultCompletion (.dict kvs)) defaultCompletion = true
  transitions : getOr "transitions" (.list []) (.dict kvs) = .list []
  sequences : field "sequences" kvs = .list items
  ne : items ≠ []

/-- The sequences of the phase are regular, and where all of them compile its ID can be encoded. -/
def PhaseRegular (R : Registry F) (rootId : Str) (path : String) (raw : Val F) : Prop :=
  ∀ kvs phaseId items, raw = .dict kvs → ReachesSequences path kvs phaseId items →
    SequencesRegular R rootId path 0 [] items ∧
      ∀ ss, compileSequencesFrom R rootId path 0 [] items = .ok ss → Py.encodable phaseId = true

/-- Every phase that is come to is regular. -/
def PhasesRegular (R : Registry F) (rootId : Str) : ℕ → List Str → List (Val F) → Prop
  | _, _, [] => True
  | index, seen, raw :: rest =>
    PhaseRegular R rootId ("template.phases[" ++ toString index ++ "]") raw ∧
      ∀ p, compilePhase R rootId raw ("template.phases[" ++ toString index ++ "]") = .ok p →
        p.phaseId ∉ seen → PhasesRegular R rootId (index + 1) (p.phaseId :: seen) rest

/-- The unknown fields of a sequence can be sorted. -/
def SequenceSortable (raw : Val F) : Prop :=
  isDict raw = true → FieldsSortable ["group", "command_schema", "reference", "samples"] raw

/-- The unknown fields of a phase and of its sequences can be sorted. -/
structure PhaseSortable (raw : Val F) : Prop where
  fields : isDict raw = true →
    FieldsSortable ["phase_id", "sequences", "completion", "transitions"] raw
  sequences : ∀ kvs items, raw = .dict kvs → field "sequences" kvs = .list items →
    ∀ s ∈ items, SequenceSortable s

variable {R : Registry F} {rootId : Str} {path : String}

omit [Cbor F] [Sha256] [PyFloat F] [PyText F] in
theorem refuses_checkTransitions (v : Val F) : RaisesOnly Refusal (checkTransitions v path) := by
  unfold checkTransitions
  split <;> simp

omit [Cbor F] [Sha256] [PyFloat F] [PyText F] in
theorem checkTransitions_eq_ok {v : Val F} : checkTransitions v path = .ok () ↔ v = .list [] := by
  unfold checkTransitions
  split
  · simp
  · rename_i hne
    simpa using hne
  · rename_i _ hne
    refine iff_of_false (fun h => (nomatch h)) fun he => hne [] he

omit [Cbor F] [Sha256] [PyFloat F] [PyText F] in
theorem refuses_nonEmptyList {v : Val F} {e : Error F} (he : Refusal e) :
    RaisesOnly Refusal (nonEmptyList v e) := by
  unfold nonEmptyList
  split <;> simp [he]

omit [Cbor F] [Sha256] [PyFloat F] [PyText F] in
theorem nonEmptyList_eq_ok_iff {v : Val F} {e : Error F} {vs : List (Val F)} :
    nonEmptyList v e = .ok vs ↔ v = .list vs ∧ vs ≠ [] := by
  constructor
  · intro h
    refine ⟨?_, nonEmptyList_eq_ok h⟩
    unfold nonEmptyList at h
    split at h
    · rw [Except.ok.inj h]
    · cases h
  · rintro ⟨rfl, hne⟩
    exact nonEmptyList_list hne e

variable [PlainCbor F] [PositiveDurations F] (hR : R.check = .ok ())

include hR

theorem refuses_compileSequencesFrom {index : ℕ} {targets : List ResolvedTarget}
    {raws : List (Val F)} (hsort : ∀ raw ∈ raws, SequenceSortable raw) :
    RaisesOnly Refusal (compileSequencesFrom R rootId path index targets raws) ↔
      SequencesRegular R rootId path index targets raws := by
  induction raws generalizing index targets with
  | nil => simp [compileSequencesFrom, SequencesRegular]
  | cons raw raws ih =>
    rw [List.forall_mem_cons] at hsort
    unfold compileSequencesFrom
    simp only [SequencesRegular, raisesOnly_bind, refuses_compileSequence hsort.1]
    refine and_congr_right fun _ => forall₂_congr fun s hs => ?_
    obtain ⟨r, hr⟩ := sequenceOk_of_compile hs
    obtain ⟨sha, hsha, -⟩ := exists_digestValue (encodable_dictOf.2 (hr.encodable hR))
    simp only [raisesOnly_raiseWhen, refusal_programError, implies_true, true_and, forall_unit,
      raiseWhen_eq_ok, hsha, raisesOnly_ok, Except.ok.injEq, forall_eq', ih hsort.2, and_true]

/-- The end of a phase: its sequences and its digest. -/
theorem refuses_sealPhase {phaseId : Str} {items : List (Val F)}
    (hsort : ∀ s ∈ items, SequenceSortable s) :
    (RaisesOnly Refusal do
      let sequences ← compileSequencesFrom R rootId path 0 [] items
      let phase : CompiledPhase F := ⟨phaseId, phaseDuration sequences, sequences⟩
      let phaseSha ← digestValue (dictOf phase.fields)
      (.ok ⟨phase, phaseSha⟩ : Except (Error F) (HashedPhase F))) ↔
    SequencesRegular R rootId path 0 [] items ∧
      ∀ ss, compileSequencesFrom R rootId path 0 [] items = .ok ss → Py.encodable phaseId = true := by
  rw [raisesOnly_bind, refuses_compileSequencesFrom hR hsort]
  refine and_congr_right fun _ => forall₂_congr fun ss hss => ?_
  rw [raisesOnly_bind_ok, refuses_digestValue]
  exact CompiledPhase.encodable_iff hR (sequencesOk_of_compile hss).2

theorem refuses_compilePhase {raw : Val F} (hsort : PhaseSortable raw) :
    RaisesOnly Refusal (compilePhase R rootId raw path) ↔ PhaseRegular R rootId path raw := by
  unfold compilePhase
  by_cases hdict : isDict raw = true
  swap
  · refine iff_of_true (by simp [raisesOnly_bind, raiseWhen_eq_ok, hdict]) ?_
    rintro kvs phaseId items rfl
    exact absurd rfl hdict
  obtain ⟨kvs, rfl⟩ := isDict_eq_true.1 hdict
  rw [refuses_raiseWhen_bind, raisesOnly_bind, refuses_requireExactFields, forall_unit]
  simp only [refusal_programError, implies_true, hdict, Bool.true_eq_false, not_false_eq_true,
    forall_const, true_and, List.cons_append, List.nil_append, hsort.fields hdict]
  by_cases hexact : requireExactFields (.dict kvs) ["phase_id", "sequences"]
      ["completion", "transitions"] path = .ok ()
  swap
  · refine iff_of_true (fun he => absurd he hexact) ?_
    rintro _ phaseId items ⟨⟩ hreach
    exact absurd hreach.fields hexact
  have hphaseId : (Val.dict kvs).getItem "phase_id" = .ok (field "phase_id" kvs) :=
    getItem_of_exact hexact (by simp)
  have hsequences : (Val.dict kvs).getItem "sequences" = .ok (field "sequences" kvs) :=
    getItem_of_exact hexact (by simp)
  simp only [hexact, hphaseId, hsequences, forall_const, refuses_liftExc_bind, refuses_raiseWhen_bind,
    refusal_programError, implies_true, true_and, Except.ok.injEq, exists_eq_left',
    raisesOnly_bind_of (refuses_shortId _ _), raisesOnly_bind_of (refuses_checkTransitions _),
    raisesOnly_bind_of (refuses_nonEmptyList (refusal_programError _ _ _ _ _)), forall_unit, Bool.not_eq_false,
    checkTransitions_eq_ok, nonEmptyList_eq_ok_iff]
  constructor
  · rintro h _ phaseId items ⟨⟩ hreach
    exact (refuses_sealPhase hR (hsort.sequences kvs items rfl hreach.sequences)).1
      (h phaseId hreach.phaseId hreach.completion hreach.transitions items
        ⟨hreach.sequences, hreach.ne⟩)
  · rintro h phaseId hid hcompletion htransitions items ⟨hitems, hne⟩
    exact (refuses_sealPhase hR (hsort.sequences kvs items rfl hitems)).2
      (h kvs phaseId items rfl ⟨hexact, hid, hcompletion, htransitions, hitems, hne⟩)

theorem refuses_compilePhasesFrom {index : ℕ} {seen : List Str} {raws : List (Val F)}
    (hsort : ∀ raw ∈ raws, PhaseSortable raw) :
    RaisesOnly Refusal (compilePhasesFrom R rootId index seen raws) ↔
      PhasesRegular R rootId index seen raws := by
  induction raws generalizing index seen with
  | nil => simp [compilePhasesFrom, PhasesRegular]
  | cons raw raws ih =>
    rw [List.forall_mem_cons] at hsort
    unfold compilePhasesFrom
    simp only [PhasesRegular, raisesOnly_bind, refuses_compilePhase hR hsort.1]
    refine and_congr_right fun _ => forall₂_congr fun p hp => ?_
    simp only [raisesOnly_raiseWhen, refusal_programError, implies_true, true_and, forall_unit,
      raiseWhen_eq_ok, raisesOnly_ok, ih hsort.2, and_true]

end Phases

/-! ## The template -/

section Template

variable [Cbor F] [Sha256] [PyFloat F] [PyText F]

/-- A template with a root that can be run and phases. -/
structure ReachesPhases (R : Registry F) (kvs : Dict F) (rootId : Str) (items : List (Val F)) :
    Prop where
  fields : requireExactFields (.dict kvs) ["format", "version", "root_id", "phases"] ["program_id"]
    "template" = .ok ()
  known : (Val.eq (field "format" kvs) (.str templateFormat) &&
    Val.eq (field "version" kvs) (.int 2)) = true
  root : shortId (field "root_id" kvs) "template.root_id" = .ok rootId
  exposed : ∃ manifest v, R.describe rootId = .ok manifest ∧
    manifest.get "exposed_as_run_root" = .ok v ∧ isTrue v = true
  phases : field "phases" kvs = .list items
  ne : items ≠ []

/-- Nothing but a `ProgramError` or a `RegistryError` can come of the template: its keys can be
listed and sorted, one with the right keys is an object, the phases that are come to are regular, and
where all of them compile the ID of the program can be encoded. -/
structure TemplateRegular (R : Registry F) (template : Val F) : Prop where
  keys : FieldsSortable ["format", "version", "root_id", "phases", "program_id"] template
  object : requireExactFields template ["format", "version", "root_id", "phases"] ["program_id"]
    "template" = .ok () → isDict template = true
  phases : ∀ kvs rootId items, template = .dict kvs → ReachesPhases R kvs rootId items →
    PhasesRegular R rootId 0 [] items
  programId : ∀ kvs rootId items ps programId, template = .dict kvs →
    ReachesPhases R kvs rootId items → compilePhasesFrom R rootId 0 [] items = .ok ps →
    shortId (getOr "program_id" (.str (py "program")) template) "template.program_id" =
      .ok programId → Py.encodable programId = true

/-- The unknown fields of the phases and of their sequences can be sorted. -/
def TemplateSortable (template : Val F) : Prop :=
  ∀ kvs items, template = .dict kvs → field "phases" kvs = .list items →
    ∀ phase ∈ items, PhaseSortable phase

variable {R : Registry F} [PlainCbor F] (hR : R.check = .ok ())

include hR

omit [PlainCbor F] in
theorem refuses_describe (nodeId : Str) : RaisesOnly Refusal (R.describe nodeId) := by
  obtain ⟨_, _, _, _, -, -, hok, -⟩ | ⟨m, hm⟩ := describe_cases hR nodeId
  · exact raisesOnly_of_eq_ok hok
  · rw [hm]
    simp

omit [PlainCbor F] in
theorem exists_manifestHash {nodeId : Str} {manifest : Val F} (h : R.describe nodeId = .ok manifest) :
    ∃ digest, manifest.getItem "manifest_hash" = .ok (.str digest) ∧
      R.manifestHash nodeId = .ok digest ∧ ∃ d, manifest = .dict d := by
  obtain ⟨_, _, _, digest, -, hown, hok, -⟩ | ⟨m, hm⟩ := describe_cases hR nodeId
  · obtain rfl := Except.ok.inj (hok.symm.trans h)
    refine ⟨digest, getItem_manifestHash hown digest, ?_, _, rfl⟩
    simp only [Registry.manifestHash, bind_eq_ok, liftExc_eq_ok]
    exact ⟨_, hok, _, getItem_manifestHash hown digest, rfl⟩
  · rw [hm] at h
    cases h

omit [PlainCbor F] in
theorem refuses_manifestHash (nodeId : Str) : RaisesOnly Refusal (R.manifestHash nodeId) := by
  cases hd : R.describe nodeId with
  | error e =>
    have hrefusal := refuses_describe hR nodeId e hd
    rw [Registry.manifestHash, hd]
    exact raisesOnly_error.2 hrefusal
  | ok manifest =>
    obtain ⟨digest, -, hhash, -⟩ := exists_manifestHash hR hd
    exact raisesOnly_of_eq_ok hhash

omit [PlainCbor F] hR in
/-- What the compiler makes of a template with the right fields. -/
theorem compileBody_eq_ok {kvs : Dict F} {b : CompiledBody F}
    (hexact : requireExactFields (.dict kvs) ["format", "version", "root_id", "phases"]
      ["program_id"] "template" = .ok ()) :
    compileBody R (.dict kvs) = .ok b ↔ ∃ items, ReachesPhases R kvs b.rootId items ∧
      compilePhasesFrom R b.rootId 0 [] items = .ok b.phases ∧
      shortId (getOr "program_id" (.str (py "program")) (.dict kvs)) "template.program_id" =
        .ok b.programId ∧
      digestValue (outlineOf b.phases) = .ok b.outlineSha256 ∧
      R.manifestHash b.rootId = .ok b.manifestHash ∧ b.serverId = R.serverId := by
  have hget : ∀ k ∈ ["format", "version", "root_id", "phases"],
    (Val.dict kvs).getItem k = .ok (field k kvs) := fun k hk => getItem_of_exact hexact hk
  simp only [List.forall_mem_cons] at hget
  obtain ⟨hformat, hversion, hroot, hphases, -⟩ := hget
  unfold compileBody
  simp only [bind_eq_ok, exists_unit, hexact, hformat, hversion, hroot, hphases, liftExc_ok,
    Except.ok.injEq, exists_eq_left', raiseWhen_eq_ok, Bool.not_eq_false, true_and, liftExc_eq_ok,
    nonEmptyList_eq_ok_iff]
  constructor
  · rintro ⟨hknown, rootId, hid, manifest, hm, v, hv, htrue, hash, hhash, items, ⟨hitems, hne⟩, ps, hps,
      programId, hprogram, sha, hsha, rfl⟩
    exact ⟨items, ⟨hexact, hknown, hid, ⟨manifest, v, hm, hv, htrue⟩, hitems, hne⟩, hps, hprogram,
      hsha, hhash, rfl⟩
  · rintro ⟨items, ⟨-, hknown, hid, ⟨manifest, v, hm, hv, htrue⟩, hitems, hne⟩, hps, hprogram, hsha,
      hhash, hserver⟩
    refine ⟨hknown, _, hid, manifest, hm, v, hv, htrue, _, hhash, items, ⟨hitems, hne⟩, _, hps, _,
      hprogram, _, hsha, ?_⟩
    rw [← hserver]

/-- The end of a body: its phases, its ID and the digest of the outline. -/
theorem refuses_sealBody [PositiveDurations F] {rootId manifestHash : Str} {items : List (Val F)}
    {id : Val F} (hsort : ∀ phase ∈ items, PhaseSortable phase) :
    (RaisesOnly Refusal do
      let phases ← compilePhasesFrom R rootId 0 [] items
      let programId ← shortId id "template.program_id"
      let outlineSha256 ← digestValue (outlineOf phases)
      (.ok ⟨programId, R.serverId, rootId, manifestHash, outlineSha256, phases⟩ :
        Except (Error F) (CompiledBody F))) ↔ PhasesRegular R rootId 0 [] items := by
  rw [raisesOnly_bind, refuses_compilePhasesFrom hR hsort]
  refine and_iff_left fun ps hps => ?_
  have houtline := encodable_outlineOf hR (phasesOk_of_compile hps).2
  rw [raisesOnly_bind_of (refuses_shortId _ _)]
  intro programId _
  rw [raisesOnly_bind_ok, refuses_digestValue]
  exact houtline

theorem refuses_compileBody [PositiveDurations F] {template : Val F}
    (hsort : TemplateSortable template) : RaisesOnly Refusal (compileBody R template) ↔
      FieldsSortable ["format", "version", "root_id", "phases", "program_id"] template ∧
      (requireExactFields template ["format", "version", "root_id", "phases"] ["program_id"]
        "template" = .ok () → isDict template = true) ∧
      ∀ kvs rootId items, template = .dict kvs → ReachesPhases R kvs rootId items →
        PhasesRegular R rootId 0 [] items := by
  unfold compileBody
  rw [raisesOnly_bind, refuses_requireExactFields, forall_unit]
  refine and_congr_right fun _ => ?_
  by_cases hexact : requireExactFields template ["format", "version", "root_id", "phases"]
      ["program_id"] "template" = .ok ()
  swap
  · refine iff_of_true (fun he => absurd he hexact) ⟨fun he => absurd he hexact, ?_⟩
    rintro kvs rootId items rfl hreach
    exact absurd hreach.fields hexact
  simp only [hexact, forall_const]
  by_cases hdict : isDict template = true
  swap
  · have herror : template.getItem "format" = .error .typeError := by
      cases template with
      | dict kvs => exact absurd rfl hdict
      | _ => rfl
    refine iff_of_false (fun h => ?_) fun h => hdict h.1
    rw [herror] at h
    exact not_refusal_builtin _ (h _ rfl)
  obtain ⟨kvs, rfl⟩ := isDict_eq_true.1 hdict
  have hget : ∀ k ∈ ["format", "version", "root_id", "phases"],
    (Val.dict kvs).getItem k = .ok (field k kvs) := fun k hk => getItem_of_exact hexact hk
  simp only [List.forall_mem_cons] at hget
  obtain ⟨hformat, hversion, hroot, hphases, -⟩ := hget
  simp only [hdict, true_and, hformat, hversion, hroot, hphases, refuses_liftExc_bind,
    refuses_raiseWhen_bind, refusal_programError, implies_true, Except.ok.injEq, exists_eq_left',
    raisesOnly_bind_of (refuses_shortId _ _), raisesOnly_bind_of (refuses_describe hR _),
    raisesOnly_bind_of (refuses_manifestHash hR _),
    raisesOnly_bind_of (refuses_nonEmptyList (refusal_programError _ _ _ _ _)), Bool.not_eq_false,
    nonEmptyList_eq_ok_iff]
  constructor
  · rintro h _ rootId items ⟨⟩ ⟨-, hknown, hid, ⟨manifest, v, hm, hv, htrue⟩, hitems, hne⟩
    obtain ⟨digest, -, hhash, -⟩ := exists_manifestHash hR hm
    obtain ⟨v', hv', hrest⟩ := h hknown rootId hid manifest hm
    obtain rfl := Except.ok.inj (hv.symm.trans hv')
    exact (refuses_sealBody hR (hsort kvs items rfl hitems)).1
      (hrest htrue digest hhash items ⟨hitems, hne⟩)
  · intro h hknown rootId hid manifest hm
    obtain ⟨-, -, -, d, rfl⟩ := exists_manifestHash hR hm
    refine ⟨_, rfl, fun htrue digest _ items ⟨hitems, hne⟩ => ?_⟩
    exact (refuses_sealBody hR (hsort kvs items rfl hitems)).2
      (h kvs rootId items rfl ⟨hexact, hknown, hid, ⟨_, _, hm, rfl, htrue⟩, hitems, hne⟩)

/-- Whatever the compiler raises on a template is a `ProgramError` or a `RegistryError` exactly where
the template is regular. -/
theorem refuses_compile [PositiveDurations F] {template : Val F}
    (hsort : TemplateSortable template) :
    RaisesOnly Refusal (compile R template) ↔ TemplateRegular R template := by
  have hprogramId : (∀ b, compileBody R template = .ok b → RaisesOnly Refusal
      (digestValue (dictOf b.fields) : Except (Error F) Str)) ↔ ∀ b, compileBody R template = .ok b →
        Py.encodable b.programId = true := by
    refine forall₂_congr fun b hb => ?_
    rw [refuses_digestValue, CompiledBody.encodable_iff hR (bodyOk_of_compile hb)]
  unfold compile
  simp only [raisesOnly_bind, raisesOnly_ok, implies_true, and_true, hprogramId,
    refuses_compileBody hR hsort]
  constructor
  · rintro ⟨⟨hkeys, hobject, hphases⟩, hid⟩
    refine ⟨hkeys, hobject, hphases, ?_⟩
    rintro kvs rootId items ps programId rfl hreach hps hprogram
    obtain ⟨manifest, _, hm, -⟩ := hreach.exposed
    obtain ⟨digest, -, hhash, -⟩ := exists_manifestHash hR hm
    obtain ⟨sha, hsha, -⟩ := exists_digestValue (encodable_outlineOf hR (phasesOk_of_compile hps).2)
    exact hid ⟨programId, R.serverId, rootId, digest, sha, ps⟩ ((compileBody_eq_ok hreach.fields).2
      ⟨items, hreach, hps, hprogram, hsha, hhash, rfl⟩)
  · intro h
    refine ⟨⟨h.keys, h.object, h.phases⟩, fun b hb => ?_⟩
    have hexact := (bind_eq_ok.1 hb).choose_spec.1
    obtain ⟨kvs, rfl⟩ := isDict_eq_true.1 (h.object hexact)
    obtain ⟨items, hreach, hps, hprogram, -⟩ := (compileBody_eq_ok hexact).1 hb
    exact h.programId kvs b.rootId items b.phases b.programId rfl hreach hps hprogram

end Template

/-! ## JSON templates -/

mutual

/-- A value of a JSON text: its arrays are lists and the keys of its objects are strings. -/
def IsJson : Val F → Prop
  | .bytes _ | .tuple _ => False
  | .list vs => AreJson vs
  | .dict kvs => JsonEntries kvs
  | .none | .bool _ | .int _ | .float _ | .str _ => True

def AreJson : List (Val F) → Prop
  | [] => True
  | v :: vs => IsJson v ∧ AreJson vs

def JsonEntries : Dict F → Prop
  | [] => True
  | (.str _, v) :: kvs => IsJson v ∧ JsonEntries kvs
  | _ :: _ => False

end

theorem isJson_of_mem {vs : List (Val F)} (h : IsJson (.list vs)) {v : Val F} (hv : v ∈ vs) :
    IsJson v := by
  rw [IsJson] at h
  induction vs with
  | nil => cases hv
  | cons w vs ih =>
    obtain rfl | hv := List.mem_cons.1 hv
    · exact h.1
    · exact ih h.2 hv

theorem isJson_of_lookup {kvs : Dict F} (h : IsJson (.dict kvs)) {k : Str} {v : Val F}
    (hk : lookup k kvs = some v) : IsJson v := by
  rw [IsJson] at h
  induction kvs with
  | nil => cases hk
  | cons p kvs ih =>
    obtain ⟨k', w⟩ := p
    cases k' with
    | str s =>
      rw [lookup_cons_str] at hk
      split_ifs at hk
      · rw [← Option.some.inj hk]
        exact h.1
      · exact ih h.2 hk
    | _ => exact h.elim

theorem isJson_field {kvs : Dict F} (h : IsJson (.dict kvs)) (k : String) : IsJson (field k kvs) := by
  unfold field
  cases hk : lookup (py k) kvs with
  | none => trivial
  | some v => exact isJson_of_lookup h hk

theorem json_keys {kvs : Dict F} (h : IsJson (.dict kvs)) :
    ∀ k ∈ kvs.map Prod.fst, ∃ s, k = .str s := by
  rw [IsJson] at h
  induction kvs with
  | nil => simp
  | cons p kvs ih =>
    obtain ⟨k, v⟩ := p
    cases k with
    | str s =>
      rw [List.map_cons, List.forall_mem_cons]
      exact ⟨⟨s, rfl⟩, ih h.2⟩
    | _ => exact h.elim

/-- Strings can be sorted. -/
theorem fieldsSortable_of_json [PyFloat F] {raw : Val F} (h : IsJson raw) (hdict : isDict raw = true)
    (names : List String) : FieldsSortable names raw := by
  obtain ⟨kvs, rfl⟩ := isDict_eq_true.1 hdict
  rw [fieldsSortable_dict]
  refine (List.pairwise_of_forall_mem_list fun a ha b hb => ?_)
  obtain ⟨s, rfl⟩ := json_keys h a (List.mem_of_mem_filter ha)
  obtain ⟨t, rfl⟩ := json_keys h b (List.mem_of_mem_filter hb)
  rfl

theorem templateSortable_of_json [PyFloat F] {template : Val F} (h : IsJson template) :
    TemplateSortable template := by
  rintro kvs items rfl hitems phase hphase
  have hjson : IsJson phase := isJson_of_mem (hitems ▸ isJson_field h "phases") hphase
  refine ⟨fun hdict => fieldsSortable_of_json hjson hdict _, ?_⟩
  rintro kvs' items' rfl hitems' s hs hdict
  exact fieldsSortable_of_json (isJson_of_mem (hitems' ▸ isJson_field hjson "sequences") hs) hdict _

/-- On a JSON template the compiler raises nothing but a `ProgramError` or a `RegistryError` exactly
where the template is regular. -/
theorem compile_refuses_iff [Cbor F] [Sha256] [PyFloat F] [PyText F] [PlainCbor F]
    [PositiveDurations F] {R : Registry F} (hR : R.check = .ok ()) {template : Val F}
    (hjson : IsJson template) :
    RaisesOnly Refusal (compile R template) ↔ TemplateRegular R template :=
  refuses_compile hR (templateSortable_of_json hjson)

/-! ### Templates with an escaping exception -/

section Demo

local instance escapesHash : Sha256 := lengthHash

local instance escapesCodec : Cbor ℚ := strictCodec

local instance escapesPlain : PlainCbor ℚ := plainCbor_strictCodec

/-- The exception that is no refusal. -/
def escaped {α : Type} : Except (Error ℚ) α → Option Exc
  | .error (.builtin e) => some e
  | _ => none

theorem not_refuses_of_escaped {α : Type} {x : Except (Error ℚ) α} {e : Exc}
    (h : escaped x = some e) : ¬RaisesOnly Refusal x := by
  intro hx
  unfold escaped at h
  split at h
  · exact not_refusal_builtin _ (hx _ rfl)
  · cases h

/-- Exact arithmetic with the overflow of a double. -/
@[reducible] def overflowing : PyFloat ℚ :=
  { (inferInstance : PyFloat ℚ) with
    truediv := fun a b =>
      if b = 0 then .error .zeroDivisionError
      else if (2 : ℚ) ^ 1024 ≤ |(a / b : ℚ)| then .error .overflowError
      else .ok (a / b) }

/-- One phase that moves the arm of the demo robot. -/
def armTemplate (phaseId : Str) (durationUs : ℤ) : Val ℚ :=
  dictOf [("format", .str templateFormat), ("version", .int 2), ("root_id", .str (py "demo_robot")),
    ("phases", .list [dictOf [("phase_id", .str phaseId),
      ("sequences", .list [dictOf [("group", .str (py "arm")),
        ("command_schema", .str normalizedPositionSchema), ("reference", .str (py "absolute")),
        ("samples", .list [
          dictOf [("t_us", .int 0), ("values", .list [.int 0])],
          dictOf [("t_us", .int durationUs), ("values", .list [.int 1])]])]])]])]

theorem isJson_armTemplate (phaseId : Str) (durationUs : ℤ) :
    IsJson (armTemplate phaseId durationUs) := by
  simp [armTemplate, dictOf, IsJson, AreJson, JsonEntries]

set_option maxRecDepth 20000 in
/-- The ID of a phase with an unpaired surrogate, and a segment of `10 ** 400` microseconds. -/
theorem compile_refuses_counterexample :
    (demoRegistry.check.isOk = true ∧ IsJson (armTemplate [0xD800] 1000000) ∧
      escaped (compile demoRegistry (armTemplate [0xD800] 1000000)) = some .unicodeEncodeError) ∧
    (@Registry.check ℚ _ _ overflowing _ demoRegistry).isOk = true ∧
      IsJson (armTemplate (py "move") (10 ^ 400)) ∧
      escaped (@compile ℚ _ _ overflowing _ demoRegistry (armTemplate (py "move") (10 ^ 400))) =
        some .overflowError := by
  refine ⟨⟨by decide +kernel, isJson_armTemplate _ _, by decide +kernel⟩, by decide +kernel,
    isJson_armTemplate _ _, by decide +kernel⟩

set_option maxRecDepth 20000 in
theorem compile_refuses_surrogate : ¬TemplateRegular demoRegistry (armTemplate [0xD800] 1000000) := by
  have hok : demoRegistry.check.isOk = true := by decide +kernel
  have hescaped : escaped (compile demoRegistry (armTemplate [0xD800] 1000000)) =
      some .unicodeEncodeError := by decide +kernel
  obtain ⟨_, hcheck⟩ := exists_of_isOk hok
  rw [← compile_refuses_iff hcheck (isJson_armTemplate _ _)]
  exact not_refuses_of_escaped hescaped

end Demo

end RemoteRobot
