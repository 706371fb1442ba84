import RemoteRobot.Program.Recompile

/-!
# Dense samples

What `_compile_dense_samples` accepts, over exact arithmetic.  `DenseOk` says it of the samples as
data, without the order of the checks; it is parametric in how a value is read, since the source
calls `float`, which reads a string with a numeral as well (`compileDenseSamples_eq_ok`).  The
function therefore takes exactly the arrays of numbers within the limits unless one of their values
is such a string (`dense_samples_iff`).
-/

namespace RemoteRobot

open Py Except

variable {F : Type}

/-! ## The shape of a sample -/

/-- An object with a time and values and nothing else, each value read by `read`. -/
structure ReadSample (read : Val F → Option F) (axisCount : ℕ) (raw : Val F) (s : Sample F) :
    Prop where
  object : ∃ d vs, raw = .dict d ∧
    (∀ k, k ∈ d.map Prod.fst ↔ k = .str (py "t_us") ∨ k = .str (py "values")) ∧
    lookup (py "t_us") d = some (.int s.tUs) ∧ lookup (py "values") d = some (.list vs) ∧
    List.Forall₂ (fun v x => read v = some x) vs s.values
  length : s.values.length = axisCount

theorem mapM_eq_some_iff {α β : Type} {f : α → Option β} {xs : List α} {ys : List β} :
    xs.mapM f = some ys ↔ List.Forall₂ (fun x y => f x = some y) xs ys := by
  induction xs generalizing ys with
  | nil =>
    rw [List.mapM_nil, List.forall₂_nil_left_iff]
    exact ⟨fun h => (Option.some.inj h).symm, fun h => congrArg some h.symm⟩
  | cons x xs ih =>
    rw [List.mapM_cons, List.forall₂_cons_left_iff]
    simp only [Option.bind_eq_bind, Option.bind_eq_some_iff, Option.pure_def, Option.some.injEq, ih]
    constructor
    · rintro ⟨y, hy, ys, hys, rfl⟩
      exact ⟨y, ys, hy, hys, rfl⟩
    · rintro ⟨y, ys, hy, hys, rfl⟩
      exact ⟨y, hy, ys, hys, rfl⟩

section Shape

variable [PyFloat F] {axes : List (DenseAxis F)} {reference commandSchema : Str} {path : String}
  {previous : Option (Sample F)}

/-- How the compiler reads a value: `float`, behind the check for booleans. -/
def readValue (v : Val F) : Option F := if isBool v then none else v.toFloat

theorem requireExactFields_eq_ok {d : Dict F} {required : List String} {path : String} :
    requireExactFields (.dict d) required [] path = .ok () ↔
      (∀ k ∈ required, Key.str (py k) ∈ d.map Prod.fst) ∧
      ∀ k ∈ d.map Prod.fst, ∃ r ∈ required, k = .str (py r) := by
  constructor
  · intro h
    unfold requireExactFields at h
    rw [Val.toSet_dict, liftExc_ok] at h
    have h : (if _ ∧ _ then _ else _) = _ := h
    split_ifs at h with hc
    · obtain ⟨hmissing, hunexpected⟩ := hc
      rw [List.filter_eq_nil_iff] at hmissing
      rw [List.isEmpty_iff, List.filter_eq_nil_iff] at hunexpected
      refine ⟨fun k hk => ?_, fun k hk => ?_⟩
      · have := hmissing k hk
        rw [Bool.not_eq_true', Bool.not_eq_false] at this
        exact hasStr_iff.1 this
      · have := hunexpected k hk
        rw [Bool.not_eq_true', Bool.not_eq_false, List.any_eq_true, List.append_nil] at this
        obtain ⟨r, hr, he⟩ := this
        exact ⟨r, hr, Key.eq_str_iff.1 he⟩
    · obtain ⟨_, -, h⟩ := bind_eq_ok.1 h
      cases h
  · rintro ⟨hreq, hall⟩
    refine requireExactFields_dict hreq fun k hk => ?_
    rw [List.append_nil]
    exact hall k hk

/-- The two fields of a sample are there and no other. -/
theorem sampleFields_eq_ok {d : Dict F} :
    requireExactFields (.dict d) ["t_us", "values"] [] path = .ok () ↔
      ∀ k, k ∈ d.map Prod.fst ↔ k = .str (py "t_us") ∨ k = .str (py "values") := by
  rw [requireExactFields_eq_ok]
  simp only [List.mem_cons, List.not_mem_nil, or_false, forall_eq_or_imp, forall_eq,
    exists_eq_or_imp, exists_eq_left]
  constructor
  · rintro ⟨⟨ht, hv⟩, hall⟩ k
    refine ⟨hall k, ?_⟩
    rintro (rfl | rfl)
    · exact ht
    · exact hv
  · intro h
    exact ⟨⟨(h _).2 (.inl rfl), (h _).2 (.inr rfl)⟩, fun k hk => (h k).1 hk⟩

omit [PyFloat F] in
theorem sampleTime_eq_ok_iff {v : Val F} {t : ℤ} :
    sampleTime v previous path = .ok t ↔ v = .int t ∧ sampleTime (.int t : Val F) previous path = .ok t := by
  constructor
  · intro h
    have hv := sampleTime_eq_ok h
    exact ⟨hv, hv ▸ h⟩
  · rintro ⟨rfl, h⟩
    exact h

/-- A list of `n` values, all read and finite. -/
theorem sampleValues_eq_ok_iff {v : Val F} {n : ℕ} {xs : List F} :
    sampleValues v n path = .ok xs ↔ (∃ vs, v = .list vs ∧
      List.Forall₂ (fun v x => readValue v = some x) vs xs) ∧ xs.length = n ∧
      xs.all PyFloat.isFinite = true := by
  constructor
  · intro h
    obtain ⟨hlen, hfin⟩ := sampleValues_eq_ok h
    refine ⟨?_, hlen, hfin⟩
    unfold sampleValues at h
    split at h
    · rename_i raw
      simp only [bind_eq_ok, raiseWhen_eq_ok, exists_unit, not_not, Bool.not_eq_true] at h
      obtain ⟨-, hbool, ys, hys, -, h⟩ := h
      obtain rfl := Except.ok.inj h
      unfold floatValues at hys
      split at hys
      · cases hys
      · rename_i hm
        obtain rfl := Except.ok.inj hys
        refine ⟨raw, rfl, ?_⟩
        have hno : ∀ v ∈ raw, isBool v = false := by
          intro v hv
          by_contra hb
          rw [Bool.not_eq_false] at hb
          rw [List.any_eq_true.2 ⟨v, hv, hb⟩] at hbool
          cases hbool
        refine (List.forall₂_and_left _ _ |>.2 ⟨hno, mapM_eq_some_iff.1 hm⟩).imp ?_
        rintro v x ⟨hb, hx⟩
        unfold readValue
        rw [if_neg (by rw [hb]; decide)]
        exact hx
    · cases h
  · rintro ⟨⟨vs, rfl, hall⟩, hlen, hfin⟩
    have hread : ∀ (v : Val F) x, readValue v = some x → isBool v = false ∧ v.toFloat = some x := by
      intro v x hx
      unfold readValue at hx
      split_ifs at hx with hb
      exact ⟨by simpa using hb, hx⟩
    have hbool : vs.any isBool = false := by
      rw [List.any_eq_false]
      intro v hv
      obtain ⟨x, -, hx⟩ := hall.exists_of_mem_left hv
      rw [(hread v x hx).1]
      decide
    have hval : floatValues vs path = .ok xs := by
      unfold floatValues
      rw [mapM_eq_some_iff.2 (hall.imp fun v x hx => (hread v x hx).2)]
    simp only [sampleValues, bind_eq_ok, raiseWhen_eq_ok, exists_unit, not_not, Bool.not_eq_false,
      hbool]
    exact ⟨by rw [hall.length_eq, hlen], by simp, xs, hval, hfin, rfl⟩

/-- One turn of the loop takes a sample of the right shape within the limits. -/
theorem compileSample_eq_ok {raw : Val F} {s : Sample F} :
    compileSample axes reference commandSchema path previous raw = .ok s ↔
      ReadSample readValue axes.length raw s ∧
      SampleOk axes reference commandSchema path previous s := by
  constructor
  · intro h
    refine ⟨?_, sampleOk_of_compileSample h⟩
    unfold compileSample at h
    simp only [bind_eq_ok, raiseWhen_eq_ok, exists_unit, liftExc_eq_ok] at h
    obtain ⟨hdict, hfields, v, hv, t, ht, w, hw, xs, hxs, -, h⟩ := h
    obtain rfl := Except.ok.inj h
    obtain ⟨d, rfl⟩ := isDict_eq_true.1 (by simpa using hdict)
    obtain ⟨rfl, -⟩ := sampleTime_eq_ok_iff.1 ht
    obtain ⟨⟨vs, rfl, hvs⟩, hlen, -⟩ := sampleValues_eq_ok_iff.1 hxs
    exact ⟨⟨d, vs, rfl, sampleFields_eq_ok.1 hfields, lookup_of_getItem hv, lookup_of_getItem hw, hvs⟩,
      hlen⟩
  · rintro ⟨⟨⟨d, vs, rfl, hkeys, ht, hv, hvs⟩, hlen⟩, hok⟩
    unfold compileSample
    simp only [bind_eq_ok, raiseWhen_eq_ok, exists_unit, liftExc_eq_ok]
    exact ⟨by simp [isDict], sampleFields_eq_ok.2 hkeys, _, getItem_of_lookup ht, _, hok.time, _, getItem_of_lookup hv, _,
      sampleValues_eq_ok_iff.2 ⟨⟨vs, rfl, hvs⟩, hlen, hok.finite⟩, hok.check, rfl⟩

theorem compileSamplesFrom_eq_ok {index : ℕ} {raws : List (Val F)} {ss : List (Sample F)} :
    compileSamplesFrom axes reference commandSchema path index previous raws = .ok ss ↔
      List.Forall₂ (ReadSample readValue axes.length) raws ss ∧
      SamplesOk axes reference commandSchema path index previous ss := by
  induction raws generalizing index previous ss with
  | nil =>
    constructor
    · intro h
      obtain rfl := Except.ok.inj h
      exact ⟨.nil, trivial⟩
    · rintro ⟨h, -⟩
      rw [List.forall₂_nil_left_iff.1 h]
      rfl
  | cons raw raws ih =>
    unfold compileSamplesFrom
    simp only [bind_eq_ok, compileSample_eq_ok, ih]
    constructor
    · rintro ⟨s, ⟨hread, hok⟩, ss', ⟨hreads, hoks⟩, h⟩
      obtain rfl := Except.ok.inj h
      exact ⟨.cons hread hreads, hok, hoks⟩
    · rintro ⟨h, hoks⟩
      obtain ⟨s, ss', hread, hreads, rfl⟩ := List.forall₂_cons_left_iff.1 h
      exact ⟨s, ⟨hread, hoks.1⟩, ss', ⟨hreads, hoks.2⟩, rfl⟩

theorem compileDenseSamples_shape {raw : Val F} {ss : List (Sample F)} :
    compileDenseSamples raw axes reference commandSchema path = .ok ss ↔
      (∃ raws, raw = .list raws ∧ List.Forall₂ (ReadSample readValue axes.length) raws ss) ∧
      2 ≤ ss.length ∧ SamplesOk axes reference commandSchema path 0 none ss := by
  constructor
  · intro h
    obtain ⟨hlen, hok⟩ := samplesOk_of_compileDenseSamples h
    refine ⟨?_, hlen, hok⟩
    unfold compileDenseSamples at h
    split at h
    · split_ifs at h
      exact ⟨_, rfl, (compileSamplesFrom_eq_ok.1 h).1⟩
    · cases h
  · rintro ⟨⟨raws, rfl, hreads⟩, hlen, hok⟩
    unfold compileDenseSamples
    simp only
    rw [if_neg (by rw [hreads.length_eq]; omega)]
    exact compileSamplesFrom_eq_ok.2 ⟨hreads, hok⟩

theorem checkLimits_eq_ok {values : List F} : checkLimits path axes values = .ok () ↔
    ∀ p ∈ axes.zip values, outsideBounds p.1 p.2 = false := by
  induction axes generalizing values with
  | nil => exact ⟨fun _ _ h => absurd h List.not_mem_nil, fun _ => rfl⟩
  | cons axis axes ih =>
    cases values with
    | nil => exact ⟨fun _ _ h => absurd h List.not_mem_nil, fun _ => rfl⟩
    | cons value values =>
      unfold checkLimits
      rw [List.zip_cons_cons, List.forall_mem_cons, ← ih]
      split_ifs with h
      · exact iff_of_false (by simp) fun hno => by simp [hno.1] at h
      · exact ⟨fun hok => ⟨by simpa using h, hok⟩, fun hok => hok.2⟩

theorem validateRatesFrom_eq_ok {durationS : F} {before after : List F} :
    validateRatesFrom durationS path axes before after = .ok () ↔
      ∀ p ∈ axes.zip (before.zip after),
        validateAxisRates p.1 p.2.1 p.2.2 durationS path = .ok () := by
  induction axes generalizing before after with
  | nil => exact ⟨fun _ _ h => absurd h List.not_mem_nil, fun _ => rfl⟩
  | cons axis axes ih =>
    cases before with
    | nil => exact ⟨fun _ _ h => absurd h List.not_mem_nil, fun _ => rfl⟩
    | cons start before =>
      cases after with
      | nil => exact ⟨fun _ _ h => absurd h List.not_mem_nil, fun _ => rfl⟩
      | cons «end» after =>
        unfold validateRatesFrom
        rw [List.zip_cons_cons, List.zip_cons_cons, List.forall_mem_cons, ← ih]
        simp only [bind_eq_ok, exists_unit]

theorem sampleOk_iff {s : Sample F} : SampleOk axes reference commandSchema path previous s ↔
    sampleTime (.int s.tUs : Val F) previous path = .ok s.tUs ∧ s.values.length = axes.length ∧
      s.values.all PyFloat.isFinite = true ∧
      checkSample axes reference commandSchema path previous s = .ok () :=
  ⟨fun h => ⟨h.time, h.length, h.finite, h.check⟩, fun h => ⟨h.1, h.2.1, h.2.2.1, h.2.2.2⟩⟩

end Shape

/-! ## Exact arithmetic -/

/-- What `float` reads of strings and of byte strings. -/
structure Numerals where
  ofStr : Str → Option ℚ
  ofBytes : Bytes → Option ℚ

/-- Exact arithmetic with these numerals. -/
@[reducible] def Numerals.exact (n : Numerals) : PyFloat ℚ :=
  { (inferInstance : PyFloat ℚ) with ofStr := n.ofStr, ofBytes := n.ofBytes }

/-- A JSON number. -/
def jsonNumber : Val ℚ → Option ℚ
  | .int k => some k
  | .float x => some x
  | _ => none

/-- A number, or a string that is a numeral. -/
def Numerals.number (n : Numerals) : Val ℚ → Option ℚ
  | .str s => n.ofStr s
  | .bytes b => n.ofBytes b
  | v => jsonNumber v

theorem Numerals.readValue_exact (n : Numerals) (v : Val ℚ) :
    @readValue ℚ n.exact v = n.number v := by
  cases v with
  | none | bool | int | float | str | bytes | list | tuple | dict => rfl

/-- The sample lies within the limits of every axis and, for a normalized schema, of the range. -/
structure LimitsOk (axes : List (DenseAxis ℚ)) (reference commandSchema : Str) (s : Sample ℚ) :
    Prop where
  bounds : reference = py "absolute" → ∀ p ∈ axes.zip s.values,
    (∀ lower ∈ p.1.lower, lower ≤ p.2) ∧ ∀ upper ∈ p.1.upper, p.2 ≤ upper
  normalized : commandSchema = normalizedPositionSchema → ∀ x ∈ s.values,
    (if reference = py "absolute" then 0 else -1) ≤ x ∧ x ≤ 1

/-- The seconds from one sample to the next. -/
def segmentS (a b : Sample ℚ) : ℚ := ((b.tUs - a.tUs : ℤ) : ℚ) / 1000000

/-- A segment that takes time and keeps the rates of every axis. -/
structure SegmentOk (axes : List (DenseAxis ℚ)) (a b : Sample ℚ) : Prop where
  time : a.tUs < b.tUs
  velocity : ∀ p ∈ axes.zip (a.values.zip b.values), ∀ v ∈ p.1.maxVelocity,
    1.875 * |p.2.2 - p.2.1| / segmentS a b ≤ v
  acceleration : ∀ p ∈ axes.zip (a.values.zip b.values), ∀ v ∈ p.1.maxAcceleration,
    5.773503 * |p.2.2 - p.2.1| / segmentS a b ^ 2 ≤ v

/-- The first sample is at time zero, and at rest when the values are offsets from there. -/
structure StartOk (reference : Str) (s : Sample ℚ) : Prop where
  time : s.tUs = 0
  zero : reference = py "phase_start_measured" → ∀ x ∈ s.values, |x| ≤ 1 / 10 ^ 12

/-- The raw samples are an array of two objects or more that read as `ss`, and `ss` starts well and
keeps the limits. -/
structure DenseOk (read : Val ℚ → Option ℚ) (axes : List (DenseAxis ℚ)) (reference commandSchema : Str)
    (raw : Val ℚ) (ss : List (Sample ℚ)) : Prop where
  array : ∃ raws, raw = .list raws ∧ List.Forall₂ (ReadSample read axes.length) raws ss
  two : 2 ≤ ss.length
  start : ∀ s ∈ ss.head?, StartOk reference s
  limits : ∀ s ∈ ss, LimitsOk axes reference commandSchema s
  segments : List.IsChain (SegmentOk axes) ss

section Exact

variable (n : Numerals) {axes : List (DenseAxis ℚ)} {reference commandSchema : Str} {path : String}

theorem exceeds_exact {x : ℚ} {limit : Option ℚ} :
    @exceeds ℚ n.exact x limit = false ↔ ∀ v ∈ limit, x ≤ v := by
  cases limit with
  | none => simp [exceeds]
  | some v =>
    show decide (v < x) = false ↔ _
    simp

theorem outsideBounds_exact {axis : DenseAxis ℚ} {x : ℚ} :
    @outsideBounds ℚ n.exact axis x = false ↔
      (∀ lower ∈ axis.lower, lower ≤ x) ∧ ∀ upper ∈ axis.upper, x ≤ upper := by
  unfold outsideBounds
  rw [Bool.or_eq_false_iff, exceeds_exact]
  refine and_congr_left fun _ => ?_
  cases axis.lower with
  | none => simp
  | some lower =>
    show decide (x < lower) = false ↔ _
    simp

theorem outsideNormalized_exact {x : ℚ} : @outsideNormalized ℚ n.exact reference x = false ↔
    (if reference = py "absolute" then 0 else -1) ≤ x ∧ x ≤ 1 := by
  unfold outsideNormalized
  split_ifs with h
  · show (decide (x < 0) || decide (1 < x)) = false ↔ _
    simp
  · show (decide (x < -1) || decide (1 < x)) = false ↔ _
    simp

theorem validateAxisRates_exact {axis : DenseAxis ℚ} {x y d : ℚ} (hd : d ≠ 0) :
    @validateAxisRates ℚ n.exact axis x y d path = .ok () ↔
      (∀ v ∈ axis.maxVelocity, 1.875 * |y - x| / d ≤ v) ∧
      ∀ v ∈ axis.maxAcceleration, 5.773503 * |y - x| / d ^ 2 ≤ v := by
  have hdiv : ∀ a : ℚ, @PyFloat.div ℚ n.exact a d = .ok (a / d) := fun a => if_neg hd
  have hdiv' : ∀ a : ℚ, @PyFloat.div ℚ n.exact a (@PyFloat.mul ℚ n.exact d d) = .ok (a / (d * d)) :=
    fun a => if_neg (mul_ne_zero hd hd)
  unfold validateAxisRates
  simp only [hdiv, hdiv', liftExc_ok, bind_eq_ok, Except.ok.injEq, exists_eq_left', raiseWhen_eq_ok, exists_unit,
    Bool.not_eq_true, exceeds_exact]
  rw [pow_two]
  exact Iff.rfl

theorem validateSegmentRates_exact {a b : Sample ℚ} (htime : a.tUs < b.tUs) :
    @validateSegmentRates ℚ n.exact axes a.values b.values (b.tUs - a.tUs) path = .ok () ↔
      SegmentOk axes a b := by
  have hd : segmentS a b ≠ 0 := by
    unfold segmentS
    have hpos : (0 : ℚ) < ((b.tUs - a.tUs : ℤ) : ℚ) := by
      rw [Int.cast_pos]
      omega
    positivity
  have hdiv : @PyFloat.truediv ℚ n.exact (b.tUs - a.tUs) 1000000 = .ok (segmentS a b) := by
    show (if (1000000 : ℤ) = 0 then _ else _) = _
    rw [if_neg (by decide)]
    unfold segmentS
    norm_num
  unfold validateSegmentRates
  simp only [hdiv, liftExc_ok, bind_eq_ok, Except.ok.injEq, exists_eq_left']
  rw [@validateRatesFrom_eq_ok ℚ n.exact]
  constructor
  · intro h
    exact ⟨htime, fun p hp => ((validateAxisRates_exact n hd).1 (h p hp)).1,
      fun p hp => ((validateAxisRates_exact n hd).1 (h p hp)).2⟩
  · intro h p hp
    exact (validateAxisRates_exact n hd).2 ⟨h.velocity p hp, h.acceleration p hp⟩

/-- What the checks of one sample amount to, behind the sample before it. -/
theorem checkSample_exact {previous : Option (Sample ℚ)} {s : Sample ℚ}
    (hlater : ∀ p ∈ previous, p.tUs < s.tUs) :
    @checkSample ℚ n.exact axes reference commandSchema path previous s = .ok () ↔
      (reference = py "phase_start_measured" → previous = none → ∀ x ∈ s.values, |x| ≤ 1 / 10 ^ 12) ∧
      LimitsOk axes reference commandSchema s ∧ ∀ p ∈ previous, SegmentOk axes p s := by
  have hzero : ((s.values.any fun v => @PyFloat.lt ℚ n.exact (@PyFloat.lit ℚ n.exact (1 / 10 ^ 12))
      (@PyFloat.abs ℚ n.exact v)) = true) ↔ ¬∀ x ∈ s.values, |x| ≤ 1 / 10 ^ 12 := by
    rw [List.any_eq_true]
    simp only [not_forall, not_le]
    exact ⟨fun ⟨x, hx, h⟩ => ⟨x, hx, of_decide_eq_true h⟩,
      fun ⟨x, hx, h⟩ => ⟨x, hx, decide_eq_true h⟩⟩
  have hnormalized : (s.values.any (@outsideNormalized ℚ n.exact reference) = true) ↔
      ¬∀ x ∈ s.values, (if reference = py "absolute" then 0 else -1) ≤ x ∧ x ≤ 1 := by
    simp only [← outsideNormalized_exact n, List.any_eq_true, not_forall, Bool.not_eq_false,
      exists_prop]
  have hlimits : LimitsOk axes reference commandSchema s ↔ (reference = py "absolute" →
      @checkLimits ℚ n.exact path axes s.values = .ok ()) ∧ (commandSchema = normalizedPositionSchema →
        ∀ x ∈ s.values, (if reference = py "absolute" then 0 else -1) ≤ x ∧ x ≤ 1) := by
    rw [@checkLimits_eq_ok ℚ n.exact]
    simp only [outsideBounds_exact]
    exact ⟨fun h => ⟨h.bounds, h.normalized⟩, fun h => ⟨h.1, h.2⟩⟩
  unfold checkSample
  simp only [bind_eq_ok, exists_unit, raiseWhen_eq_ok, hzero, hnormalized, not_and, not_not,
    Option.isNone_iff_eq_none, hlimits]
  refine and_congr_right fun _ => ?_
  have hsegment : ∀ p, previous = some p →
      (@validateSegmentRates ℚ n.exact axes p.values s.values (s.tUs - p.tUs) path = .ok () ↔
        SegmentOk axes p s) := fun p hp => validateSegmentRates_exact n (hlater p hp)
  split_ifs with habs
  · simp only [bind_eq_ok, exists_unit, raiseWhen_eq_ok, not_and, not_not, habs, forall_const,
      and_assoc]
    cases previous with
    | none => simp
    | some p => simp [hsegment p rfl]
  · simp only [bind_eq_ok, exists_unit, raiseWhen_eq_ok, not_and, not_not, habs, false_imp_iff,
      true_and]
    cases previous with
    | none => simp
    | some p => simp [hsegment p rfl]

theorem sampleTime_int {t : ℤ} {previous : Option (Sample ℚ)} :
    (sampleTime (.int t) previous path : Except (Error ℚ) ℤ) = .ok t ↔
      0 ≤ t ∧ (previous = none → t = 0) ∧ ∀ p ∈ previous, p.tUs < t := by
  unfold sampleTime
  simp only [bind_eq_ok, raiseWhen_eq_ok, exists_unit, and_true, not_lt, not_and, not_not,
    Option.isNone_iff_eq_none]
  cases previous with
  | none => simp
  | some p => simp

theorem sampleOk_none {s : Sample ℚ} :
    @SampleOk ℚ n.exact axes reference commandSchema path none s ↔
      s.values.length = axes.length ∧ StartOk reference s ∧
        LimitsOk axes reference commandSchema s := by
  have hlater : ∀ p ∈ (none : Option (Sample ℚ)), p.tUs < s.tUs := by simp
  rw [@sampleOk_iff ℚ n.exact, sampleTime_int, checkSample_exact n hlater]
  constructor
  · rintro ⟨⟨-, hzero, -⟩, hlen, -, hrest, hlimits, -⟩
    exact ⟨hlen, ⟨hzero rfl, fun hr => hrest hr rfl⟩, hlimits⟩
  · rintro ⟨hlen, hstart, hlimits⟩
    exact ⟨⟨hstart.time.ge, fun _ => hstart.time, hlater⟩, hlen, List.all_eq_true.2 fun _ _ => rfl,
      fun hr _ => hstart.zero hr, hlimits, by simp⟩

theorem sampleOk_some {p s : Sample ℚ} (hp : 0 ≤ p.tUs) :
    @SampleOk ℚ n.exact axes reference commandSchema path (some p) s ↔
      s.values.length = axes.length ∧ LimitsOk axes reference commandSchema s ∧
        SegmentOk axes p s := by
  rw [@sampleOk_iff ℚ n.exact, sampleTime_int]
  constructor
  · rintro ⟨⟨-, -, hlater⟩, hlen, -, hcheck⟩
    obtain ⟨-, hlimits, hsegment⟩ := (checkSample_exact n hlater).1 hcheck
    exact ⟨hlen, hlimits, hsegment p rfl⟩
  · rintro ⟨hlen, hlimits, hsegment⟩
    have hlater : ∀ q ∈ some p, q.tUs < s.tUs := by simpa using hsegment.time
    refine ⟨⟨hp.trans hsegment.time.le, by simp, hlater⟩, hlen, List.all_eq_true.2 fun _ _ => rfl,
      (checkSample_exact n hlater).2 ⟨by simp, hlimits, ?_⟩⟩
    simpa using hsegment

/-- The loop behind a sample. -/
theorem samplesOk_some {index : ℕ} {p : Sample ℚ} {ss : List (Sample ℚ)} (hp : 0 ≤ p.tUs) :
    @SamplesOk ℚ n.exact axes reference commandSchema path index (some p) ss ↔
      (∀ s ∈ ss, s.values.length = axes.length) ∧ (∀ s ∈ ss, LimitsOk axes reference commandSchema s) ∧
        List.IsChain (SegmentOk axes) (p :: ss) := by
  induction ss generalizing index p with
  | nil => exact iff_of_true trivial ⟨by simp, by simp, .singleton p⟩
  | cons s ss ih =>
    unfold SamplesOk
    rw [sampleOk_some n hp, List.isChain_cons_cons, List.forall_mem_cons, List.forall_mem_cons]
    constructor
    · rintro ⟨⟨hlen, hlimits, hsegment⟩, hrest⟩
      obtain ⟨hlens, hall, hchain⟩ := (ih (hp.trans hsegment.time.le)).1 hrest
      exact ⟨⟨hlen, hlens⟩, ⟨hlimits, hall⟩, hsegment, hchain⟩
    · rintro ⟨⟨hlen, hlens⟩, ⟨hlimits, hall⟩, hsegment, hchain⟩
      exact ⟨⟨hlen, hlimits, hsegment⟩, (ih (hp.trans hsegment.time.le)).2 ⟨hlens, hall, hchain⟩⟩

theorem samplesOk_none {ss : List (Sample ℚ)} :
    @SamplesOk ℚ n.exact axes reference commandSchema path 0 none ss ↔
      (∀ s ∈ ss, s.values.length = axes.length) ∧ (∀ s ∈ ss.head?, StartOk reference s) ∧
        (∀ s ∈ ss, LimitsOk axes reference commandSchema s) ∧ List.IsChain (SegmentOk axes) ss := by
  cases ss with
  | nil => exact iff_of_true trivial ⟨by simp, by simp, by simp, .nil⟩
  | cons s ss =>
    unfold SamplesOk
    rw [sampleOk_none n, List.forall_mem_cons, List.forall_mem_cons]
    simp only [List.head?_cons, Option.mem_def, Option.some.injEq, forall_eq']
    constructor
    · rintro ⟨⟨hlen, hstart, hlimits⟩, hrest⟩
      obtain ⟨hlens, hall, hchain⟩ := (samplesOk_some n hstart.time.ge).1 hrest
      exact ⟨⟨hlen, hlens⟩, hstart, ⟨hlimits, hall⟩, hchain⟩
    · rintro ⟨⟨hlen, hlens⟩, hstart, ⟨hlimits, hall⟩, hchain⟩
      exact ⟨⟨hlen, hstart, hlimits⟩, (samplesOk_some n hstart.time.ge).2 ⟨hlens, hall, hchain⟩⟩

/-- What the compiler accepts, with strings read by `float`. -/
theorem compileDenseSamples_eq_ok {raw : Val ℚ} {ss : List (Sample ℚ)} :
    @compileDenseSamples ℚ n.exact raw axes reference commandSchema path = .ok ss ↔
      DenseOk n.number axes reference commandSchema raw ss := by
  have hread : @readValue ℚ n.exact = n.number := funext n.readValue_exact
  rw [@compileDenseSamples_shape ℚ n.exact, samplesOk_none n, hread]
  constructor
  · rintro ⟨harray, htwo, -, hstart, hlimits, hchain⟩
    exact ⟨harray, htwo, hstart, hlimits, hchain⟩
  · intro h
    refine ⟨h.array, h.two, fun s hs => ?_, h.start, h.limits, h.segments⟩
    obtain ⟨raws, -, hraws⟩ := h.array
    obtain ⟨_, -, hread⟩ := hraws.exists_of_mem_right hs
    exact hread.length

/-- The value stands among the values of a sample. -/
def HasValue (raw v : Val ℚ) : Prop :=
  ∃ raws d vs, raw = .list raws ∧ .dict d ∈ raws ∧ lookup (py "values") d = some (.list vs) ∧ v ∈ vs

theorem jsonNumber_of_number {v : Val ℚ} {x : ℚ} (h : n.number v = some x)
    (hstr : ∀ s, v ≠ .str s) (hbytes : ∀ b, v ≠ .bytes b) : jsonNumber v = some x := by
  cases v with
  | str s => exact absurd rfl (hstr s)
  | bytes b => exact absurd rfl (hbytes b)
  | none | bool | int | float | list | tuple | dict => exact h

theorem number_of_jsonNumber {v : Val ℚ} {x : ℚ} (h : jsonNumber v = some x) :
    n.number v = some x := by
  cases v with
  | str | bytes => cases h
  | none | bool | int | float | list | tuple | dict => exact h

theorem ReadSample.imp {read read' : Val ℚ → Option ℚ} {k : ℕ} {raw : Val ℚ} {s : Sample ℚ}
    (h : ReadSample read k raw s) (himp : ∀ d vs, raw = .dict d →
      lookup (py "values") d = some (.list vs) → ∀ v ∈ vs, ∀ x, read v = some x → read' v = some x) :
    ReadSample read' k raw s := by
  obtain ⟨⟨d, vs, rfl, hkeys, ht, hv, hvs⟩, hlen⟩ := h
  refine ⟨⟨d, vs, rfl, hkeys, ht, hv, ?_⟩, hlen⟩
  exact ((List.forall₂_and_left _ _).2 ⟨fun v hmem => hmem, hvs⟩).imp
    fun v x ⟨hmem, hx⟩ => himp d vs rfl hv v hmem x hx

/-- `_compile_dense_samples` returns exactly on the arrays of numbers within the limits, with their
times and values, just when the array is not one that has a string, or a byte string, among its
values and is within the limits when these are read by `float`. -/
theorem dense_samples_iff (n : Numerals) (raw : Val ℚ) (axes : List (DenseAxis ℚ))
    (reference commandSchema : Str) (path : String) :
    (∀ ss, @compileDenseSamples ℚ n.exact raw axes reference commandSchema path = .ok ss ↔
      DenseOk jsonNumber axes reference commandSchema raw ss) ↔
    ¬∃ ss v, DenseOk n.number axes reference commandSchema raw ss ∧ HasValue raw v ∧
      ((∃ s, v = .str s) ∨ ∃ b, v = .bytes b) := by
  simp only [compileDenseSamples_eq_ok]
  constructor
  · rintro h ⟨ss, v, hok, ⟨raws, d, vs, rfl, hd, hvs, hmem⟩, hv⟩
    obtain ⟨raws', he, hreads⟩ := ((h ss).1 hok).array
    obtain rfl := Val.list.inj he
    obtain ⟨s, -, hread⟩ := hreads.exists_of_mem_left hd
    obtain ⟨d', vs', hd', -, -, hvs', hall⟩ := hread.object
    obtain rfl := Val.dict.inj hd'
    obtain rfl := Val.list.inj (Option.some.inj (hvs.symm.trans hvs'))
    obtain ⟨x, -, hx⟩ := hall.exists_of_mem_left hmem
    obtain ⟨s, rfl⟩ | ⟨b, rfl⟩ := hv
    · cases hx
    · cases hx
  · intro hno ss
    constructor
    · intro hok
      obtain ⟨raws, rfl, hreads⟩ := hok.array
      refine ⟨⟨raws, rfl, ?_⟩, hok.two, hok.start, hok.limits, hok.segments⟩
      refine ((List.forall₂_and_left _ _).2 ⟨fun raw hraw => hraw, hreads⟩).imp fun raw s ⟨hraw, hs⟩ =>
        hs.imp ?_
      rintro d vs rfl hvs v hmem x hx
      have hvalue : HasValue (.list raws) v := ⟨raws, d, vs, rfl, hraw, hvs, hmem⟩
      refine jsonNumber_of_number n hx (fun s hs => hno ?_) fun b hb => hno ?_
      · exact ⟨ss, v, hok, hvalue, .inl ⟨s, hs⟩⟩
      · exact ⟨ss, v, hok, hvalue, .inr ⟨b, hb⟩⟩
    · intro hok
      obtain ⟨raws, rfl, hreads⟩ := hok.array
      exact ⟨⟨raws, rfl, hreads.imp fun raw s hs => hs.imp fun _ _ _ _ _ _ _ hx =>
        number_of_jsonNumber n hx⟩, hok.two, hok.start, hok.limits, hok.segments⟩

end Exact

/-! ### A numeral among the values -/

def plainNumerals : Numerals := ⟨decimal, fun b => decimal (b.map UInt8.toNat)⟩

def demoDenseAxis : DenseAxis ℚ :=
  { name := py "base", kind := py "normalized", unit := py "1", lower := some 0, upper := some 1
    maxVelocity := none, maxAcceleration := none }

/-- The second sample has the value `"0.5"`. -/
def demoNumeral : Val ℚ :=
  .list [dictOf [("t_us", .int 0), ("values", .list [.int 0])],
    dictOf [("t_us", .int 1000000), ("values", .list [.str (py "0.5")])]]

/-- The compiler takes a string for a number. -/
theorem dense_samples_counterexample : ∃ ss,
    @compileDenseSamples ℚ plainNumerals.exact demoNumeral [demoDenseAxis] (py "absolute")
      normalizedPositionSchema "" = .ok ss ∧
    ¬DenseOk jsonNumber [demoDenseAxis] (py "absolute") normalizedPositionSchema demoNumeral ss := by
  have hok : (@compileDenseSamples ℚ plainNumerals.exact demoNumeral [demoDenseAxis] (py "absolute")
      normalizedPositionSchema "").isOk = true := by decide +kernel
  obtain ⟨ss, hss⟩ := exists_of_isOk hok
  refine ⟨ss, hss, fun h => ?_⟩
  obtain ⟨raws, he, hreads⟩ := h.array
  obtain rfl := Val.list.inj he
  obtain ⟨s, -, hread⟩ := hreads.exists_of_mem_left (List.mem_cons_of_mem _ (List.mem_cons_self ..))
  obtain ⟨d, vs, hd, -, -, hvs, hall⟩ := hread.object
  obtain rfl := Val.dict.inj hd
  have hlookup : lookup (py "values") (entries [("t_us", Val.int 1000000),
      ("values", .list [.str (py "0.5")])]) = some (.list [(.str (py "0.5") : Val ℚ)]) := by
    simp [lookup]
  obtain rfl := Val.list.inj (Option.some.inj (hlookup.symm.trans hvs))
  obtain ⟨x, -, hx, -⟩ := List.forall₂_cons_left_iff.1 hall
  cases hx

end RemoteRobot
