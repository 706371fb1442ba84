import RemoteRobot.Lib.JsonText
import RemoteRobot.Orchestrator.Grouping
import RemoteRobot.Program.RoundTrip
import RemoteRobot.Worker.InMemory

/-!
# Plans on the wire

A program that passed `preflight` was decoded from CBOR, and its body reads back as the body its
projection compiles to.  `Decoded t v` says so of a part `v` of it and the record `t` it stands for,
and carries what is known of the record over to the part.  The plans made of a phase then pass
`canonical_payload` and the checks of `prepare_phase` unless the phase lasts 2^63 microseconds or
longer: the compiler bounds no time, and the worker protocol has 64-bit integers
(`plan_passes_iff`).
-/

namespace RemoteRobot

open Py Except

variable {F : Type}

/-! ## Decoded values -/

theorem exists_reads_item {vs : List (Val F)} {x : Val F} (h : x.Reads (.list vs)) :
    ∀ v ∈ vs, ∃ y : Val F, y.Reads v := by
  have hitems : ∀ xs : List (Val F), Val.ReadsList xs vs → ∀ v ∈ vs, ∃ y : Val F, y.Reads v := by
    intro xs hxs v hv
    obtain ⟨y, -, hy⟩ := (Val.readsList_iff_forall₂.1 hxs).exists_of_mem_right hv
    exact ⟨y, hy⟩
  cases x with
  | none | bool | int | float | str | bytes => cases h
  | list xs | tuple xs =>
    obtain ⟨_, he, hxs⟩ := h
    obtain rfl := Val.list.inj he
    exact hitems xs hxs
  | dict a =>
    obtain ⟨_, _, he, -⟩ := h
    cases he

theorem mem_of_lookup {d : Dict F} {k : Str} {v : Val F} (h : lookup k d = some v) :
    (Key.str k, v) ∈ d := by
  induction d with
  | nil => cases h
  | cons p d ih =>
    obtain ⟨k', w⟩ := p
    cases k' with
    | str s =>
      rw [lookup_cons_str] at h
      split_ifs at h with hs
      · rw [hs, Option.some.inj h]
        exact List.mem_cons_self ..
      · exact List.mem_cons_of_mem _ (ih h)
    | none | bool | int | float | bytes | tuple => exact List.mem_cons_of_mem _ (ih h)

theorem exists_reads_entry {d : Dict F} {x : Val F} (h : x.Reads (.dict d)) :
    ∀ p ∈ d, ∃ y : Val F, y.Reads p.2 := by
  intro p hp
  cases x with
  | none | bool | int | float | str | bytes => cases h
  | list xs | tuple xs =>
    obtain ⟨_, he, -⟩ := h
    cases he
  | dict a =>
    obtain ⟨_, c, he, hperm, hc⟩ := h
    obtain rfl := Val.dict.inj he
    rw [← hperm.mem_iff] at hp
    clear he hperm
    induction a generalizing c with
    | nil =>
      obtain rfl : c = [] := hc
      cases hp
    | cons q a ih =>
      obtain ⟨w, c', rfl, hw, hc⟩ := hc
      obtain rfl | hp := List.mem_cons.1 hp
      · exact ⟨_, hw⟩
      · exact ih c' hp hc

theorem not_reads_tuple {x : Val F} {vs : List (Val F)} : ¬x.Reads (.tuple vs) := by
  intro hx
  cases x with
  | none | bool | int | float | str | bytes => cases hx
  | list | tuple =>
    obtain ⟨_, he, -⟩ := hx
    cases he
  | dict =>
    obtain ⟨_, _, he, -⟩ := hx
    cases he

/-- `v` came out of a decoder, and reads back as the same value as `t`. -/
structure Decoded (t v : Val F) : Prop where
  same : t.Same v
  image : ∃ x : Val F, x.Reads v

namespace Decoded

theorem str {s : Str} {v : Val F} (h : Decoded (.str s) v) : v = .str s := by
  obtain ⟨w, h₁, h₂⟩ := h.same
  obtain rfl : w = .str s := h₁
  cases v with
  | str s' => exact (show Val.str s = .str s' from h₂).symm
  | none | bool | int | float | bytes => cases h₂
  | list | tuple =>
    obtain ⟨_, he, -⟩ := h₂
    cases he
  | dict =>
    obtain ⟨_, _, he, -⟩ := h₂
    cases he

theorem int {n : ℤ} {v : Val F} (h : Decoded (.int n) v) : v = .int n := by
  obtain ⟨w, h₁, h₂⟩ := h.same
  obtain rfl : w = .int n := h₁
  cases v with
  | int n' => exact (show Val.int n = .int n' from h₂).symm
  | none | bool | str | float | bytes => cases h₂
  | list | tuple =>
    obtain ⟨_, he, -⟩ := h₂
    cases he
  | dict =>
    obtain ⟨_, _, he, -⟩ := h₂
    cases he

/-- The items of a decoded list are decoded. -/
theorem list {α : Type} {f : α → Val F} {xs : List α} {v : Val F}
    (h : Decoded (.list (xs.map f)) v) :
    ∃ vs, v = .list vs ∧ List.Forall₂ (fun x v => Decoded (f x) v) xs vs := by
  obtain ⟨vs, rfl⟩ : ∃ vs, v = .list vs := by
    obtain ⟨_, ⟨ws, rfl, -⟩, h₂⟩ := h.same
    cases v with
    | list vs => exact ⟨vs, rfl⟩
    | tuple vs => exact absurd h.image.choose_spec not_reads_tuple
    | none | bool | int | float | str | bytes => cases h₂
    | dict =>
      obtain ⟨_, _, he, -⟩ := h₂
      cases he
  obtain ⟨x, hx⟩ := h.image
  refine ⟨vs, rfl, ?_⟩
  have hsame := List.forall₂_map_left_iff.1 h.same.list
  exact List.Forall₂.flip (((List.forall₂_and_left _ _).2
    ⟨exists_reads_item hx, List.Forall₂.flip hsame⟩).imp fun v x h => ⟨h.2, h.1⟩)

/-- The fields of a decoded record are decoded. -/
theorem dict {kvs : List (String × Val F)} {v : Val F} (h : Decoded (dictOf kvs) v)
    (hnd : (kvs.map Prod.fst).Nodup) : ∃ d, v = .dict d ∧ ∀ k u, lookup (py k) (entries kvs) = some u →
      ∃ u', lookup (py k) d = some u' ∧ Decoded u u' := by
  obtain ⟨w, h₁, h₂⟩ := h.same
  obtain ⟨c, rfl, -, hkeys, hc⟩ := Val.Reads.fields h₁ (nodup_entries hnd)
  obtain ⟨d, rfl⟩ : ∃ d, v = .dict d := by
    cases v with
    | dict d => exact ⟨d, rfl⟩
    | none | bool | int | float | str | bytes => cases h₂
    | list | tuple =>
      obtain ⟨_, he, -⟩ := h₂
      cases he
  obtain ⟨x, hx⟩ := h.image
  have hnd' : (d.map Prod.fst).Nodup := by
    obtain ⟨_, c', he, hp, hc'⟩ := h₂
    obtain rfl := Val.dict.inj he
    rw [← Val.readsDict_keys hc', (hp.map Prod.fst).nodup_iff, hkeys.nodup_iff]
    exact nodup_entries hnd
  obtain ⟨_, he, -, -, hd⟩ := Val.Reads.fields h₂ hnd'
  obtain rfl := Val.dict.inj he
  refine ⟨d, rfl, fun k u hu => ?_⟩
  obtain ⟨z, hz, hr⟩ := (hc (py k)).1 u hu
  cases hk : lookup (py k) d with
  | none =>
    rw [(hd (py k)).2 hk] at hz
    cases hz
  | some u' =>
    obtain ⟨z', hz', hr'⟩ := (hd (py k)).1 u' hk
    obtain rfl := Option.some.inj (hz.symm.trans hz')
    exact ⟨u', rfl, ⟨z, hr, hr'⟩, exists_reads_entry hx _ (mem_of_lookup hk)⟩

theorem encodable {t v : Val F} (h : Decoded t v) : v.encodable = t.encodable := by
  obtain ⟨w, h₁, h₂⟩ := h.same
  rw [← h₁.encodable, ← h₂.encodable]

theorem completion {v : Val F} (h : Decoded defaultCompletion v) : v = defaultCompletion := by
  obtain ⟨w, h₁, h₂⟩ := h.same
  obtain rfl := reads_defaultCompletion h₁
  cases v with
  | dict a =>
    obtain ⟨b, c, he, hp, hc⟩ := h₂
    obtain rfl := Val.dict.inj he
    rw [List.perm_singleton.1 hp] at hc
    cases a with
    | nil => cases (show _ = [] from hc)
    | cons p a =>
      obtain ⟨u, c', hcons, hu, hrest⟩ := hc
      obtain ⟨hhead, rfl⟩ := List.cons.inj hcons
      cases a with
      | nil =>
        have hv : p.2 = .str (py "all_sequences_finished/v1") :=
          str ⟨⟨_, rfl, by rw [← (Prod.mk.inj hhead).2] at hu; exact hu⟩,
            exists_reads_entry h.image.choose_spec _ (List.mem_singleton_self _)⟩
        have hp : p = (Key.str (py "schema"), p.2) := Prod.ext (Prod.mk.inj hhead).1.symm rfl
        rw [hp, hv]
        rfl
      | cons q a =>
        obtain ⟨_, _, hnil, -⟩ := hrest
        cases hnil
  | none | bool | int | float | str | bytes => cases h₂
  | list | tuple =>
    obtain ⟨_, he, -⟩ := h₂
    cases he

end Decoded

section Admissible

variable [PyFloat F]

open Ipc (Admissible AdmissibleItems AdmissibleEntries valueDepth depthItems depthEntries
  admissibleEntries_iff depthEntries_le)

mutual

/-- What came out of a decoder keeps the schema when it reads back as a value that does. -/
theorem admissible_of_reads : ∀ {v w : Val F}, (∃ x : Val F, x.Reads v) → v.Reads w →
    Admissible w → Admissible v ∧ valueDepth v = valueDepth w
  | .none, _, _, h, hw | .bool _, _, _, h, hw | .int _, _, _, h, hw | .float _, _, _, h, hw
  | .str _, _, _, h, hw | .bytes _, _, _, h, hw => by
    rw [show _ = _ from h] at hw ⊢
    exact ⟨hw, rfl⟩
  | .tuple _, _, ⟨_, hx⟩, _, _ => absurd hx not_reads_tuple
  | .list vs, _, ⟨x, hx⟩, h, hw => by
    obtain ⟨ws, rfl, hws⟩ := h
    exact admissibleItems_of_reads (exists_reads_item hx) hws hw
  | .dict a, _, ⟨x, hx⟩, h, hw => by
    obtain ⟨b, c, rfl, hp, hc⟩ := h
    have hadm : AdmissibleEntries c :=
      admissibleEntries_iff.2 fun p hpc => admissibleEntries_iff.1 hw p (hp.mem_iff.1 hpc)
    obtain ⟨hadm, hdepth⟩ := admissibleEntries_of_reads (exists_reads_entry hx) hc hadm
    refine ⟨hadm, ?_⟩
    rw [valueDepth, valueDepth, hdepth]
    apply le_antisymm <;> rw [depthEntries_le] <;> intro p hpb
    · exact depthEntries_le.1 le_rfl p (hp.mem_iff.1 hpb)
    · exact depthEntries_le.1 le_rfl p (hp.mem_iff.2 hpb)

theorem admissibleItems_of_reads : ∀ {vs ws : List (Val F)}, (∀ v ∈ vs, ∃ x : Val F, x.Reads v) →
    Val.ReadsList vs ws → AdmissibleItems ws → AdmissibleItems vs ∧ depthItems vs = depthItems ws
  | [], _, _, h, _ => by
    rw [show _ = [] from h]
    exact ⟨trivial, rfl⟩
  | v :: vs, _, him, h, hw => by
    obtain ⟨w, ws', rfl, hvw, hws⟩ := h
    rw [List.forall_mem_cons] at him
    obtain ⟨hadm, hdepth⟩ := admissible_of_reads him.1 hvw hw.1
    obtain ⟨hadms, hdepths⟩ := admissibleItems_of_reads him.2 hws hw.2
    exact ⟨⟨hadm, hadms⟩, by rw [depthItems, depthItems, hdepth, hdepths]⟩

theorem admissibleEntries_of_reads : ∀ {a c : Dict F}, (∀ p ∈ a, ∃ x : Val F, x.Reads p.2) →
    Val.ReadsDict a c → AdmissibleEntries c → AdmissibleEntries a ∧ depthEntries a = depthEntries c
  | [], _, _, h, _ => by
    rw [show _ = [] from h]
    exact ⟨trivial, rfl⟩
  | (k, v) :: a, _, him, h, hw => by
    obtain ⟨w, c', rfl, hvw, hc⟩ := h
    rw [List.forall_mem_cons] at him
    obtain ⟨hadm, hdepth⟩ := admissible_of_reads him.1 hvw hw.2.1
    obtain ⟨hadms, hdepths⟩ := admissibleEntries_of_reads him.2 hc hw.2.2
    exact ⟨⟨hw.1, hadm, hadms⟩, by rw [depthEntries, depthEntries, hdepth, hdepths]⟩

end

theorem Decoded.admissible {t v : Val F} (h : Decoded t v) (ht : Admissible t) :
    Admissible v ∧ valueDepth v = valueDepth t := by
  obtain ⟨w, h₁, h₂⟩ := h.same
  obtain ⟨hw, hdepth⟩ := ht.reads h₁
  obtain ⟨hv, hdepth'⟩ := admissible_of_reads h.image h₂ hw
  exact ⟨hv, hdepth'.trans hdepth⟩

end Admissible

/-! ## Records of the compiler -/

/-- A value of the schema with at most `n` containers around its deepest part. -/
structure Fits [PyFloat F] (n : ℕ) (v : Val F) : Prop where
  admissible : Ipc.Admissible v
  depth : Ipc.valueDepth v ≤ n

section Fits

variable [PyFloat F] {n : ℕ}

@[simp] theorem fits_str (s : Str) : Fits n (.str s : Val F) := ⟨trivial, Nat.zero_le n⟩

theorem fits_int {k : ℤ} (hk : 0 ≤ k) : Fits n (.int k : Val F) ↔ k < 2 ^ 63 := by
  constructor
  · intro h
    exact h.admissible.2
  · intro h
    exact ⟨⟨by omega, h⟩, Nat.zero_le n⟩

theorem fits_list {vs : List (Val F)} : Fits (n + 1) (.list vs) ↔ ∀ v ∈ vs, Fits n v := by
  constructor
  · intro h v hv
    have hdepth := Ipc.depthItems_le.1 h.depth v hv
    exact ⟨Ipc.admissibleItems_iff.1 h.admissible v hv, by omega⟩
  · intro h
    refine ⟨Ipc.admissibleItems_iff.2 fun v hv => (h v hv).admissible,
      Ipc.depthItems_le.2 fun v hv => ?_⟩
    exact Nat.succ_le_succ (h v hv).depth

theorem fits_dictOf {kvs : List (String × Val F)} :
    Fits (n + 1) (dictOf kvs) ↔ ∀ p ∈ kvs, Fits n p.2 := by
  have hmem : ∀ p ∈ entries kvs, ∃ q ∈ kvs, p = (Key.str (py q.1), q.2) := by
    intro p hp
    obtain ⟨q, hq, rfl⟩ := List.mem_map.1 hp
    exact ⟨q, hq, rfl⟩
  constructor
  · intro h p hp
    have hp' : (Key.str (py p.1), p.2) ∈ entries kvs :=
      List.mem_map_of_mem (f := fun p : String × Val F => (Key.str (py p.1), p.2)) hp
    have hdepth := Ipc.depthEntries_le.1 h.depth _ hp'
    exact ⟨(Ipc.admissibleEntries_iff.1 h.admissible _ hp').2, by simp only at hdepth; omega⟩
  · intro h
    constructor
    · refine Ipc.admissibleEntries_iff.2 fun p hp => ?_
      obtain ⟨q, hq, rfl⟩ := hmem p hp
      exact ⟨⟨_, rfl⟩, (h q hq).admissible⟩
    · refine Ipc.depthEntries_le.2 fun p hp => ?_
      obtain ⟨q, hq, rfl⟩ := hmem p hp
      exact Nat.succ_le_succ (h q hq).depth

theorem Decoded.fits {t v : Val F} (h : Decoded t v) (ht : Fits n t) : Fits n v := by
  obtain ⟨hadm, hdepth⟩ := h.admissible ht.admissible
  exact ⟨hadm, hdepth ▸ ht.depth⟩

end Fits

section Durations

/-- No sequence lasts longer than its phase. -/
theorem le_phaseDuration {ss : List (HashedSequence F)} :
    0 ≤ phaseDuration ss ∧ ∀ s ∈ ss, s.durationUs ≤ phaseDuration ss := by
  have hfold : ∀ (d : ℤ) (ss : List (HashedSequence F)),
      d ≤ ss.foldl (fun d s => max d s.durationUs) d ∧
        ∀ s ∈ ss, s.durationUs ≤ ss.foldl (fun d s => max d s.durationUs) d := by
    intro d ss
    induction ss generalizing d with
    | nil => simp
    | cons s ss ih =>
      obtain ⟨hd, hall⟩ := ih (max d s.durationUs)
      rw [List.foldl_cons, List.forall_mem_cons]
      exact ⟨(le_max_left ..).trans hd, (le_max_right ..).trans hd, hall⟩
  exact hfold 0 ss

variable [PyFloat F]

theorem time_of_sampleOk {axes : List (DenseAxis F)} {reference commandSchema : Str} {path : String}
    {previous : Option (Sample F)} {s : Sample F}
    (h : SampleOk axes reference commandSchema path previous s) :
    0 ≤ s.tUs ∧ ∀ p ∈ previous, p.tUs < s.tUs := by
  have htime := h.time
  unfold sampleTime at htime
  simp only [bind_eq_ok, raiseWhen_eq_ok, exists_unit, and_true, not_lt] at htime
  refine ⟨htime.1, fun p hp => ?_⟩
  rw [Option.mem_def.1 hp] at htime
  simpa using htime.2.2

/-- Times and values of the samples, where the last sample is the latest. -/
theorem samples_bounded {axes : List (DenseAxis F)} {reference commandSchema : Str} {path : String}
    {index : ℕ} {previous : Option (Sample F)} {ss : List (Sample F)}
    (h : SamplesOk axes reference commandSchema path index previous ss) :
    ∀ s ∈ ss, 0 ≤ s.tUs ∧ s.tUs ≤ (ss.getLast?.map Sample.tUs).getD 0 ∧
      ∀ x ∈ s.values, PyFloat.isFinite x = true := by
  induction ss generalizing index previous with
  | nil => simp
  | cons s ss ih =>
    obtain ⟨hs, hrest⟩ := h
    have hrest' := ih hrest
    cases ss with
    | nil => simpa using ⟨(time_of_sampleOk hs).1, List.all_eq_true.1 hs.finite⟩
    | cons s' ss =>
      rw [List.getLast?_cons_cons, List.forall_mem_cons]
      refine ⟨⟨(time_of_sampleOk hs).1, ?_, List.all_eq_true.1 hs.finite⟩, hrest'⟩
      have hlt := (time_of_sampleOk hrest.1).2 s rfl
      exact hlt.le.trans (hrest' s' (List.mem_cons_self ..)).2.1

/-- A compiled sequence that is short enough fits the wire. -/
theorem fits_sequence {R : Registry F} {rootId : Str} {path : String} {s : HashedSequence F}
    {r : ResolvedGroup F} (h : SequenceOk R rootId path s.toCompiledSequence r)
    (hd : s.durationUs < 2 ^ 63) : Fits 4 s.toVal := by
  have hsamples := samples_bounded h.samples
  rw [← h.duration] at hsamples
  have hduration : 0 ≤ s.durationUs := by
    obtain ⟨x, hx⟩ := List.exists_mem_of_length_pos (show 0 < s.samples.length by
      have := h.samples_length
      omega)
    exact (hsamples x hx).1.trans (hsamples x hx).2.1
  have hvals : ∀ x ∈ s.samples, Fits 2 x.toVal := by
    intro x hx
    obtain ⟨h0, hle, hfin⟩ := hsamples x hx
    rw [Sample.toVal, fits_dictOf]
    simp only [List.forall_mem_cons, List.not_mem_nil, false_imp_iff, implies_true, and_true]
    refine ⟨(fits_int h0).2 (hle.trans_lt hd), fits_list.2 fun v hv => ?_⟩
    obtain ⟨y, hy, rfl⟩ := List.mem_map.1 hv
    exact ⟨hfin y hy, le_rfl⟩
  have haxes : ∀ a ∈ s.axes, Fits 2 (a.toVal : Val F) := by
    intro a _
    rw [AxisName.toVal, fits_dictOf]
    simp
  have htarget : Fits 3 (s.resolvedTarget.toVal : Val F) := by
    rw [ResolvedTarget.toVal, fits_dictOf]
    simp
  rw [HashedSequence.toVal, fits_dictOf]
  simp only [CompiledSequence.fields, List.cons_append, List.nil_append, List.forall_mem_cons,
    fits_str, true_and, List.not_mem_nil, false_imp_iff, implies_true, and_true]
  refine ⟨htarget, fits_list.2 fun v hv => ?_, (fits_int hduration).2 hd, fits_list.2 fun v hv => ?_⟩
  · obtain ⟨a, ha, rfl⟩ := List.mem_map.1 hv
    exact haxes a ha
  · obtain ⟨x, hx, rfl⟩ := List.mem_map.1 hv
    exact hvals x hx

end Durations

/-! ## The decoded program -/

/-- A phase of the program is the decoded form of a compiled phase. -/
theorem decoded_phases {checked : CompiledProgram F} {b : CompiledBody F}
    (h : Decoded (dictOf b.fields) (.dict checked.body)) {phases : List (Val F)}
    (hphases : checked.phases = .ok phases) :
    List.Forall₂ (fun (ph : HashedPhase F) v => Decoded ph.toVal v) b.phases phases := by
  obtain ⟨d, hd, hf⟩ := h.dict (by simp [CompiledBody.fields])
  cases hd
  obtain ⟨u, hu, hdec⟩ := hf "phases" (.list (b.phases.map HashedPhase.toVal))
    (by simp [CompiledBody.fields])
  obtain ⟨vs, rfl, hvs⟩ := hdec.list
  unfold CompiledProgram.phases at hphases
  rw [getItem_of_lookup hu] at hphases
  rw [← Except.ok.inj hphases]
  exact hvs

section Program

variable [Cbor F] [LawfulCbor F] [Sha256] [PyFloat F] [PyText F]

omit [PyText F] in
theorem image_of_fromBytes {program checked : CompiledProgram F} {data : Bytes}
    (hdata : program.toBytes = .ok data) (h : fromBytes data = .ok checked) :
    ∃ x : Val F, x.Reads (.dict checked.body) := by
  obtain ⟨w, hw, hreads⟩ := LawfulCbor.loads_dumps _ _ (liftExc_eq_ok.1 hdata)
  obtain ⟨e, rfl, -, hf⟩ := reads_dict hreads (by simp)
  have hbody := (hf "body" (.dict program.body) (by simp)).2
  unfold fromBytes at h
  rw [hw] at h
  simp only [fromValue, bind_eq_ok, exists_unit] at h
  obtain ⟨_, -, -, -, h⟩ := h
  split at h
  · next body supplied hfield _ =>
    simp only [checkEnvelope, bind_eq_ok, exists_unit, Except.ok.injEq] at h
    obtain ⟨-, _, -, -, -, rfl⟩ := h
    rw [hfield] at hbody
    exact ⟨_, hbody⟩
  · cases h

/-- A program that passed `preflight` is the decoded form of what its projection compiles to. -/
theorem decoded_of_preflight (hinj : Function.Injective Sha256.digest) {R : Registry F}
    {identityId : Str} {program checked : CompiledProgram F}
    (h : preflight R identityId program = .ok checked) :
    ∃ b, Canonical R checked b ∧ Decoded (dictOf b.fields) (.dict checked.body) := by
  obtain ⟨b, hb, -⟩ := preflighted_of_preflight h
  refine ⟨b, hb, ?_, ?_⟩
  · obtain ⟨x, hx, hxsha⟩ := digestValue_eq_ok.1 hb.digest_fields
    obtain ⟨y, hy, hysha⟩ := digestValue_eq_ok.1 hb.digest
    obtain rfl : x = y := hinj (hexlify_injective (hxsha.trans hysha.symm))
    exact exists_reads_of_dumps_eq hx hy
  · unfold preflight at h
    simp only [bind_eq_ok, exists_unit] at h
    obtain ⟨data, hdata, checked', hfrom, -, _, -, _, -, _, -, -, h⟩ := h
    rw [← Except.ok.inj h]
    exact image_of_fromBytes hdata hfrom

/-! ## Plans -/

/-- The plan as `_worker_phase_plans` builds it. -/
def PhasePlan.toVal (p : PhasePlan F) : Val F :=
  dictOf [("run_id", .str p.runId), ("phase_execution_id", .str p.phaseExecutionId),
    ("root_id", .str p.rootId), ("manifest_hash", .str p.manifestHash), ("phase_id", p.phaseId),
    ("duration_us", p.durationUs), ("completion", .dict p.completion), ("transitions", .list []),
    ("tracks", .list p.tracks)]

/-- What `prepare_phase` asks of a plan, apart from the size of its payload: the plan has a payload,
the payload decodes to a copy that has the same one, and the copy passes the checks of its fields. -/
def PlanPasses (plan : Val F) : Prop :=
  ∃ (payload : Bytes) (copy : Dict F), Ipc.canonicalPayload plan = .ok payload ∧
    Cbor.loads payload = .ok (Val.dict copy) ∧ Ipc.canonicalPayload (.dict copy) = .ok payload ∧
    Worker.checkPlan copy = .ok ()

/-- A worker that takes plans prepares this one, unless its payload is too long. -/
def PlanPrepared (plan : Val F) : Prop :=
  ∃ (payload : Bytes) (copy : Dict F), Ipc.canonicalPayload plan = .ok payload ∧
    ∀ w : Worker.InMemoryWorker F, w.status.takesPlan = true → payload ≠ [] →
      payload.length ≤ Ipc.defaultMaxFrameBytes → w.preparePhase plan =
        (w.withPlan copy).emitResult "phase_prepared" (w.withPlan copy).preparedResult

/-- A worker that takes plans refuses this one before it looks at the fields. -/
def PlanRefused (plan : Val F) : Prop :=
  ∀ w : Worker.InMemoryWorker F, w.status.takesPlan = true →
    ∃ e, w.preparePhase plan = (.error (.ipc e), w)

omit [LawfulCbor F] [Sha256] [PyFloat F] [Cbor F] [PyText F] in
theorem ne_closed_of_takesPlan {w : Worker.InMemoryWorker F} (hw : w.status.takesPlan = true) :
    w.status ≠ .closed := by
  intro hc
  rw [hc] at hw
  cases hw

omit [LawfulCbor F] [Sha256] in
theorem planPrepared_of_passes {plan : Dict F} (h : PlanPasses (.dict plan)) :
    PlanPrepared (.dict plan) := by
  obtain ⟨payload, copy, hpayload, hloads, hcopy, hcheck⟩ := h
  refine ⟨payload, copy, hpayload, fun w hw hne hle => ?_⟩
  obtain ⟨-, hsend, hdumps⟩ := Ipc.canonicalPayload_eq_ok.1 hcopy
  have hdecode : Ipc.decodePayload payload Ipc.defaultMaxFrameBytes = .ok copy :=
    Ipc.decodePayload_eq_ok.2 ⟨hne, hle, hloads, hsend, hdumps⟩
  have hdata : Worker.dataCopy (.dict plan) = .ok copy := by
    unfold Worker.dataCopy
    rw [bind_eq_ok]
    exact ⟨payload, hpayload, hdecode⟩
  unfold Worker.InMemoryWorker.preparePhase
  rw [if_neg (ne_closed_of_takesPlan hw), if_neg (by simp [hw])]
  simp only [hdata, hcheck]

omit [LawfulCbor F] [Sha256] in
theorem planRefused_of_no_payload {plan : Dict F}
    (h : ∀ payload, Ipc.canonicalPayload (.dict plan) ≠ .ok payload) : PlanRefused (.dict plan) := by
  intro w hw
  unfold Worker.InMemoryWorker.preparePhase
  rw [if_neg (ne_closed_of_takesPlan hw), if_neg (by simp [hw])]
  cases hdata : Worker.dataCopy (.dict plan) with
  | error e => exact ⟨e, rfl⟩
  | ok copy =>
    unfold Worker.dataCopy at hdata
    obtain ⟨payload, hpayload, -⟩ := bind_eq_ok.1 hdata
    exact absurd hpayload (h payload)

omit [LawfulCbor F] [Sha256] [PyFloat F] [Cbor F] in
theorem plan_fields {runId : Str} {program : CompiledProgram F} {k : ℕ} {phase : Val F}
    {plans : List (Str × PhasePlan F)} (h : workerPhasePlans runId program k phase = .ok plans)
    {q : Str × PhasePlan F} (hq : q ∈ plans) :
    q.2.runId = runId ∧ program.rootId = .ok q.2.rootId ∧ program.manifestHash = .ok q.2.manifestHash ∧
      phase.getItem "phase_id" = .ok q.2.phaseId ∧ phase.getItem "duration_us" = .ok q.2.durationUs ∧
      phase.getItem "completion" = .ok (.dict q.2.completion) := by
  unfold workerPhasePlans at h
  simp only [bind_eq_ok, liftExc_eq_ok] at h
  obtain ⟨_, -, sha, -, _, -, _, -, tracks, -, hplans⟩ := h
  obtain ⟨w, -, hp⟩ := (mapM_eq_ok.1 hplans).exists_of_mem_right hq
  unfold workerPlan at hp
  simp only [bind_eq_ok, liftExc_eq_ok] at hp
  obtain ⟨rootId, hroot, manifestHash, hhash, phaseId, hid, duration, hd, c, hc, completion, hdict,
    hp⟩ := hp
  cases hp
  refine ⟨rfl, hroot, hhash, hid, hd, ?_⟩
  cases c with
  | dict kvs => rw [hc, Except.ok.inj hdict]
  | _ => cases hdict

/-- What a plan of a compiled phase holds. -/
structure PlanOf (run : Str) (b : CompiledBody F) (ph : HashedPhase F) (q : PhasePlan F) :
    Prop where
  runId : q.runId = run
  executionId : ∃ k, q.phaseExecutionId = phaseExecutionId run k ph.sha256
  rootId : q.rootId = b.rootId
  manifestHash : q.manifestHash = b.manifestHash
  phaseId : q.phaseId = .str ph.phaseId
  durationUs : q.durationUs = .int ph.durationUs
  completion : Val.dict q.completion = defaultCompletion
  tracks : ∀ v ∈ q.tracks, ∃ s ∈ ph.sequences, Decoded s.toVal v

omit [Sha256] [PyFloat F] [Cbor F] [LawfulCbor F] [PyText F] in
theorem HashedPhase.decoded {ph : HashedPhase F} {phase : Val F} (h : Decoded ph.toVal phase) :
    phase.get "sha256" = .ok (.str ph.sha256) ∧ phase.getItem "phase_id" = .ok (.str ph.phaseId) ∧
      phase.getItem "duration_us" = .ok (.int ph.durationUs) ∧
      phase.getItem "completion" = .ok defaultCompletion ∧
      ∃ vs, phase.getItem "sequences" = .ok (.list vs) ∧
        List.Forall₂ (fun (s : HashedSequence F) v => Decoded s.toVal v) ph.sequences vs := by
  obtain ⟨d, rfl, hf⟩ := h.dict (by simp [CompiledPhase.fields])
  obtain ⟨_, hsha, hs⟩ := hf "sha256" (.str ph.sha256) (by simp [CompiledPhase.fields])
  obtain ⟨_, hid, hi⟩ := hf "phase_id" (.str ph.phaseId) (by simp [CompiledPhase.fields])
  obtain ⟨_, hdur, hd⟩ := hf "duration_us" (.int ph.durationUs) (by simp [CompiledPhase.fields])
  obtain ⟨c, hcomp, hc⟩ := hf "completion" defaultCompletion (by simp [CompiledPhase.fields])
  obtain ⟨_, hseq, hv⟩ := hf "sequences" (.list (ph.sequences.map HashedSequence.toVal))
    (by simp [CompiledPhase.fields])
  obtain ⟨vs, rfl, hvs⟩ := hv.list
  rw [hs.str] at hsha
  rw [hi.str] at hid
  rw [hd.int] at hdur
  rw [hc.completion] at hcomp
  exact ⟨by simp [Val.get, hsha], getItem_of_lookup hid, getItem_of_lookup hdur,
    getItem_of_lookup hcomp, vs, getItem_of_lookup hseq, hvs⟩

omit [LawfulCbor F] in
theorem planOf_of_plans {R : Registry F} {program : CompiledProgram F} {b : CompiledBody F}
    (hb : Canonical R program b) {ph : HashedPhase F} {phase : Val F} (h : Decoded ph.toVal phase)
    {runId : Str} {k : ℕ} {plans : List (Str × PhasePlan F)}
    (hplans : workerPhasePlans runId program k phase = .ok plans) {q : Str × PhasePlan F}
    (hq : q ∈ plans) : PlanOf runId b ph q.2 := by
  obtain ⟨hsha, hid, hdur, hcomp, vs, hvs, hall⟩ := HashedPhase.decoded h
  obtain ⟨hrun, hroot, hhash, hid', hdur', hcomp'⟩ := plan_fields hplans hq
  obtain ⟨sha, hsha', hexec⟩ := plans_executionId hplans
  rw [hsha] at hsha'
  rw [hb.rootId] at hroot
  rw [hb.manifestHash] at hhash
  rw [hid] at hid'
  rw [hdur] at hdur'
  rw [hcomp] at hcomp'
  obtain rfl := Val.str.inj (Except.ok.inj hsha')
  refine ⟨hrun, ⟨k, hexec q hq⟩, (Except.ok.inj hroot).symm, (Except.ok.inj hhash).symm,
    (Except.ok.inj hid').symm, (Except.ok.inj hdur').symm, (Except.ok.inj hcomp').symm, fun v hv => ?_⟩
  obtain ⟨-, u, ws, hu, hws, hv⟩ := mem_tracks hplans hq hv
  rw [hvs] at hu
  cases hu
  cases hws
  exact hall.exists_of_mem_right hv

namespace PlanOf

variable {R : Registry F} {runId : Str} {b : CompiledBody F} {ph : HashedPhase F} {q : PhasePlan F}

omit [LawfulCbor F] [PyText F] in
theorem fits (h : PlanOf runId b ph q) {path : String} (hph : PhaseOk R b.rootId path ph)
    (hd : ph.durationUs < 2 ^ 63) : Fits 6 q.toVal := by
  obtain ⟨hpos, hle⟩ : 0 ≤ phaseDuration ph.sequences ∧ _ := le_phaseDuration
  rw [← hph.duration] at hpos hle
  have htracks : ∀ v ∈ q.tracks, Fits 4 v := by
    intro v hv
    obtain ⟨s, hs, hdec⟩ := h.tracks v hv
    obtain ⟨_, r, hr⟩ := sequenceOk_of_mem hph.sequences s hs
    exact hdec.fits (fits_sequence hr ((hle s hs).trans_lt hd))
  have hcompletion : Fits 5 (.dict q.completion) := by
    rw [h.completion, defaultCompletion]
    exact fits_dictOf.2 (by simp)
  rw [PhasePlan.toVal, fits_dictOf]
  simp only [List.forall_mem_cons, fits_str, h.phaseId, h.durationUs, true_and, List.not_mem_nil,
    false_imp_iff, implies_true, and_true]
  exact ⟨(fits_int hpos).2 hd, hcompletion, fits_list.2 (by simp), fits_list.2 htracks⟩

omit [LawfulCbor F] [PyText F] [Sha256] in
theorem duration_of_payload (h : PlanOf runId b ph q) {payload : Bytes}
    (hp : Ipc.canonicalPayload q.toVal = .ok payload) : ph.durationUs < 2 ^ 63 := by
  obtain ⟨-, ⟨hadm, -⟩, -⟩ := Ipc.canonicalPayload_eq_ok.1 hp
  have hdur := (Ipc.admissibleEntries_iff.1 hadm (.str (py "duration_us"), q.durationUs) (by simp)).2
  rw [h.durationUs] at hdur
  exact hdur.2

omit [LawfulCbor F] [PyText F] [Cbor F] [Sha256] [PyFloat F] in
theorem encodable (h : PlanOf runId b ph q) (hb : (dictOf b.fields).encodable = true)
    (hph : ph ∈ b.phases) (hrun : Py.encodable runId = true) : q.toVal.encodable = true := by
  have hfields := encodable_dictOf.1 hb
  have hroot := hfields ("root_id", .str b.rootId) (by simp [CompiledBody.fields])
  have hhash := hfields ("manifest_hash", .str b.manifestHash) (by simp [CompiledBody.fields])
  have hphases := hfields ("phases", .list (b.phases.map HashedPhase.toVal))
    (by simp [CompiledBody.fields])
  have hphase := encodable_dictOf.1
    (encodable_list.1 hphases ph.toVal (List.mem_map_of_mem hph))
  have hid := hphase ("phase_id", .str ph.phaseId) (by simp [CompiledPhase.fields])
  have hsha := hphase ("sha256", .str ph.sha256) (by simp)
  have hseqs := hphase ("sequences", .list (ph.sequences.map HashedSequence.toVal))
    (by simp [CompiledPhase.fields])
  have hcompletion : (Val.dict q.completion).encodable = true := by
    rw [h.completion, defaultCompletion, encodable_dictOf]
    simp [Val.encodable]
  have htracks : ∀ v ∈ q.tracks, v.encodable = true := by
    intro v hv
    obtain ⟨s, hs, hdec⟩ := h.tracks v hv
    rw [hdec.encodable]
    exact encodable_list.1 hseqs _ (List.mem_map_of_mem hs)
  have hexec : Py.encodable q.phaseExecutionId = true := by
    obtain ⟨k, hk⟩ := h.executionId
    have htake : Py.encodable (ph.sha256.take 12) = true := by
      simp only [Val.encodable, Py.encodable, List.all_eq_true] at hsha ⊢
      exact fun c hc => hsha c (List.mem_of_mem_take hc)
    rw [hk, phaseExecutionId]
    simp [hrun, encodable_natStr, htake]
  rw [PhasePlan.toVal, encodable_dictOf]
  simp only [List.forall_mem_cons, h.runId, h.rootId, h.manifestHash, h.phaseId, h.durationUs]
  exact ⟨hrun, hexec, hroot, hhash, hid, rfl, hcompletion, rfl, encodable_list.2 htracks, by simp⟩

omit [LawfulCbor F] [PyText F] [Cbor F] [Sha256] [PyFloat F] in
theorem checkPlan (h : PlanOf runId b ph q) (hrun : runId ≠ []) (hid : ph.phaseId ≠ [])
    (hd : 0 ≤ ph.durationUs) {copy : Dict F} (hr : q.toVal.Reads (.dict copy)) :
    Worker.checkPlan copy = .ok () := by
  obtain ⟨_, hcopy, -, hf⟩ := reads_dict hr (by simp)
  cases hcopy
  have hexec : q.phaseExecutionId ≠ [] := by
    obtain ⟨k, hk⟩ := h.executionId
    rw [hk, phaseExecutionId]
    simp [hrun]
  have hstr : ∀ (k : String) (s : Str), lookup (py k) copy = some (field k copy) →
      (Val.str s).Reads (field k copy) → s ≠ [] → Worker.checkIdentity copy k = .ok () := by
    intro k s hk hs hne
    unfold Worker.checkIdentity
    rw [hk, show field k copy = .str s from hs]
    simpa [raiseWhen_eq_ok] using hne
  obtain ⟨hrunId, hrunReads⟩ := hf "run_id" (.str q.runId) (by simp)
  obtain ⟨hphaseId, hphaseReads⟩ := hf "phase_id" q.phaseId (by simp)
  obtain ⟨hexecId, hexecReads⟩ := hf "phase_execution_id" (.str q.phaseExecutionId) (by simp)
  obtain ⟨hdur, hdurReads⟩ := hf "duration_us" q.durationUs (by simp)
  rw [h.phaseId] at hphaseReads
  rw [h.durationUs] at hdurReads
  have hduration : Worker.checkDuration copy = .ok () := by
    unfold Worker.checkDuration
    rw [hdur, show field "duration_us" copy = .int ph.durationUs from hdurReads]
    simpa [raiseWhen_eq_ok] using hd
  unfold Worker.checkPlan
  rw [bind_eq_ok]
  refine ⟨(), forM_eq_ok.2 fun k hk => ?_, hduration⟩
  simp only [Worker.identityFields, List.mem_cons, List.not_mem_nil, or_false] at hk
  obtain rfl | rfl | rfl := hk
  · exact hstr _ _ hrunId hrunReads (h.runId ▸ hrun)
  · exact hstr _ _ hphaseId hphaseReads hid
  · exact hstr _ _ hexecId hexecReads hexec

end PlanOf

omit [Sha256] [PyText F] in
theorem planPasses_of_sendable {plan : List (String × Val F)} (hfits : Ipc.Sendable (dictOf plan))
    (henc : (dictOf plan).encodable = true)
    (hcheck : ∀ copy, (dictOf plan).Reads (.dict copy) → Worker.checkPlan copy = .ok ()) :
    PlanPasses (dictOf plan) := by
  obtain ⟨payload, hdumps⟩ := LawfulCbor.dumps_ok _ henc
  obtain ⟨w, hw, hr⟩ := LawfulCbor.loads_dumps _ _ hdumps
  obtain ⟨copy, rfl⟩ : ∃ copy, w = .dict copy := by
    obtain ⟨copy, _, rfl, -⟩ := hr
    exact ⟨copy, rfl⟩
  refine ⟨payload, copy, Ipc.canonicalPayload_eq_ok.2 ⟨⟨_, rfl⟩, hfits, hdumps⟩, hw, ?_, hcheck copy hr⟩
  exact Ipc.canonicalPayload_eq_ok.2
    ⟨⟨_, rfl⟩, hfits.reads hr, (LawfulCbor.dumps_reads _ _ hr).trans hdumps⟩

/-- The plans of a phase pass just when the phase lasts less than 2^63 microseconds. Workers that take
plans prepare those, and refuse the others. -/
theorem plan_passes_iff (hinj : Function.Injective Sha256.digest) {R : Registry F}
    {identityId runId : Str} {program checked : CompiledProgram F} {phases : List (Val F)} {k : ℕ}
    {phase : Val F} {plans : List (Str × PhasePlan F)}
    (hpre : preflight R identityId program = .ok checked) (hphases : checked.phases = .ok phases)
    (hk : phases[k]? = some phase) (hplans : workerPhasePlans runId checked k phase = .ok plans)
    (hne : runId ≠ []) (hrun : encodable runId = true) :
    ∃ d : ℤ, phase.getItem "duration_us" = .ok (.int d) ∧
      ∀ q ∈ plans, (PlanPasses q.2.toVal ↔ d < 2 ^ 63) ∧
        (d < 2 ^ 63 → PlanPrepared q.2.toVal) ∧ (2 ^ 63 ≤ d → PlanRefused q.2.toVal) := by
  obtain ⟨b, hb, hdecoded⟩ := decoded_of_preflight hinj hpre
  obtain ⟨ph, hph, hdec⟩ :=
    (decoded_phases hdecoded hphases).exists_of_mem_right (List.mem_of_getElem? hk)
  obtain ⟨path, hok⟩ := phaseOk_of_mem hb.bodyOk.phases ph hph
  have hpos : 0 ≤ ph.durationUs := hok.duration ▸ le_phaseDuration.1
  have hid : ph.phaseId ≠ [] := by
    intro hnil
    have h := hok.phaseId
    rw [hnil] at h
    simp [shortId] at h
  refine ⟨ph.durationUs, (HashedPhase.decoded hdec).2.2.1, fun q hq => ?_⟩
  have hplan := planOf_of_plans hb hdec hplans hq
  have hpasses : ph.durationUs < 2 ^ 63 → PlanPasses q.2.toVal := by
    intro hd
    obtain ⟨hadm, hdepth⟩ := hplan.fits hok hd
    obtain ⟨data, hdata, -⟩ := digestValue_eq_ok.1 hb.digest_fields
    exact planPasses_of_sendable ⟨hadm, hdepth.trans (by norm_num)⟩
      (hplan.encodable (encodable_of_dumps hdata) hph hrun) fun copy => hplan.checkPlan hne hid hpos
  refine ⟨⟨?_, hpasses⟩, fun hd => planPrepared_of_passes (hpasses hd), fun hd => ?_⟩
  · rintro ⟨payload, -, hpayload, -⟩
    exact hplan.duration_of_payload hpayload
  · exact planRefused_of_no_payload fun payload hpayload =>
      absurd (hplan.duration_of_payload hpayload) (by omega)

/-! ## Compiled programs have plans -/

omit [Sha256] [Cbor F] [LawfulCbor F] [PyText F] in
theorem phaseRolePaths_of_decoded {ph : HashedPhase F} {v : Val F} (h : Decoded ph.toVal v) :
    phaseRolePaths v = .ok (ph.sequences.map fun s => s.rolePath) := by
  obtain ⟨d, rfl, hf⟩ := h.dict (by simp [CompiledPhase.fields])
  obtain ⟨c, hcomp, hc⟩ := hf "completion" defaultCompletion (by simp [CompiledPhase.fields])
  obtain ⟨t, htrans, ht⟩ := hf "transitions" (.list ([].map Val.int)) (by simp [CompiledPhase.fields])
  obtain ⟨_, hseq, hv⟩ := hf "sequences" (.list (ph.sequences.map HashedSequence.toVal))
    (by simp [CompiledPhase.fields])
  obtain ⟨vs, rfl, hvs⟩ := hv.list
  obtain ⟨ts, rfl, hts⟩ := ht.list
  cases hts
  rw [hc.completion] at hcomp
  have hpaths : vs.mapM sequenceRolePath =
      (.ok (ph.sequences.map fun s => s.rolePath) : Except (Error F) _) := by
    rw [mapM_eq_ok, List.forall₂_map_right_iff]
    refine hvs.flip.imp fun v s hs => ?_
    obtain ⟨e, rfl, hg⟩ := hs.dict (by simp [CompiledSequence.fields])
    obtain ⟨_, hrole, hr⟩ := hg "role_path" (.str s.rolePath) (by simp [CompiledSequence.fields])
    rw [hr.str] at hrole
    have hfield : field "role_path" e = .str s.rolePath := by rw [field, hrole, Option.getD_some]
    unfold sequenceRolePath
    rw [bind_eq_ok]
    exact ⟨e, rfl, by rw [hfield]⟩
  unfold phaseRolePaths
  simp only [bind_eq_ok, raiseWhen_eq_ok, exists_unit, liftExc_eq_ok]
  refine ⟨defaultCompletion, by simp [Val.get, hcomp], ?_, .list [], by simp [Val.get, htrans],
    by simp [Val.truthy], .list vs, by simp [phaseRolePaths.phaseSequences, hseq], vs, rfl, hpaths⟩
  simp [defaultCompletion, dictOf, Val.eq, Val.subDict, findKey, Key.eq]

/-- A compiled program passes `preflight` for an identity that may control its role paths. -/
theorem preflight_of_compile [LawfulFloat F] {R : Registry F} {template : Val F}
    {b : CompiledBody F} (hbody : compileBody R template = .ok b) {identity : IdentitySpec}
    {identityId : Str} (hid : R.identity identityId = .ok identity)
    (hcontrol : ∀ ph ∈ b.phases, ∀ s ∈ ph.sequences, identity.canControl b.rootId s.rolePath = true)
    {p : CompiledProgram F} (hp : compile R template = .ok p) :
    ∃ checked, preflight R identityId p = .ok checked ∧
      Decoded (dictOf b.fields) (.dict checked.body) := by
  obtain ⟨b', hb, hsha, hentries⟩ := compile_eq_ok.1 hp
  rw [hbody] at hb
  obtain rfl := Except.ok.inj hb
  have hok := bodyOk_of_compile hbody
  have hdigest : digestValue (.dict p.body) = (.ok p.sha256 : Except (Error F) Str) := by
    rw [hentries]
    exact hsha
  obtain ⟨data, hdata⟩ := toBytes_of_digest hdigest
  obtain ⟨d, hreads, hfrom⟩ := fromBytes_toBytes hok hentries hdigest hdata
  rw [hentries] at hreads
  have hdecoded : Decoded (dictOf b.fields) (.dict d) := by
    obtain ⟨x, hx, -⟩ := digestValue_eq_ok.1 hsha
    exact ⟨exists_reads_of_dumps_eq hx ((LawfulCbor.dumps_reads _ _ hreads).trans hx), _, hreads⟩
  have hvalid := validate_reads hok hsha hreads
  obtain ⟨b', hb'⟩ := canonical_of_validate hvalid
  obtain ⟨phases, hphases, -⟩ := hb'.phases
  have hbody : Decoded (dictOf b.fields) (.dict (⟨d, p.sha256⟩ : CompiledProgram F).body) := hdecoded
  have hall := decoded_phases hbody hphases
  have hroot : CompiledProgram.rootId (⟨d, p.sha256⟩ : CompiledProgram F) = .ok b.rootId := by
    obtain ⟨_, he, hf⟩ := hdecoded.dict (by simp [CompiledBody.fields])
    cases he
    obtain ⟨_, hl, hr⟩ := hf "root_id" (.str b.rootId) (by simp [CompiledBody.fields])
    rw [hr.str] at hl
    rw [CompiledProgram.rootId, getItem_of_lookup hl]
    rfl
  have hpaths : phases.mapM phaseRolePaths =
      (.ok (b.phases.map fun ph => ph.sequences.map fun s => s.rolePath) :
        Except (Error F) _) := by
    rw [mapM_eq_ok, List.forall₂_map_right_iff]
    exact hall.flip.imp fun v ph h => phaseRolePaths_of_decoded h
  refine ⟨⟨d, p.sha256⟩, ?_, hdecoded⟩
  unfold preflight
  simp only [bind_eq_ok, exists_unit]
  refine ⟨data, hdata, _, hfrom, hvalid, phases, hphases, _, hpaths, _, hroot, ?_, rfl⟩
  unfold requireControl
  rw [hid]
  simp only
  rw [raiseWhen_eq_ok, not_not, deniedPaths, List.filter_eq_nil_iff]
  intro path hpath
  obtain ⟨paths, hpaths, hpath⟩ := List.mem_flatten.1 (mem_sortedSet.1 hpath)
  obtain ⟨ph, hph, rfl⟩ := List.mem_map.1 hpaths
  obtain ⟨s, hs, rfl⟩ := List.mem_map.1 hpath
  simp [hcontrol ph hph s hs]

end Program

/-! ### A program that lasts too long -/

section Demo

/-- An injective stand-in for the hash. -/
local instance handoverHash : Sha256 := ⟨id⟩

/-- One phase of 2^63 microseconds. -/
def longTemplate : Val ℚ :=
  dictOf [("format", .str templateFormat), ("version", .int 2), ("root_id", .str (py "demo_robot")),
    ("phases", .list [dictOf [("phase_id", .str (py "move")),
      ("sequences", .list [dictOf [("group", .str (py "arm")),
        ("command_schema", .str normalizedPositionSchema), ("reference", .str (py "absolute")),
        ("samples", .list [
          dictOf [("t_us", .int 0), ("values", .list [.int 0])],
          dictOf [("t_us", .int (2 ^ 63)), ("values", .list [.float (1 / 2)])]])]])]])]

/-- What the template compiles to, with its digest. -/
def longBody : Except (Error ℚ) (CompiledBody ℚ × Str) := do
  let body ← compileBody demoRegistry longTemplate
  let sha256 ← digestValue (dictOf body.fields)
  .ok (body, sha256)

/-- The phase is as long as asked, and the operator may control its role paths. -/
def longCheck (body : CompiledBody ℚ) : Bool :=
  body.phases.all fun ph => decide (ph.durationUs = 2 ^ 63 ∧ 12 ≤ ph.sha256.length) &&
    ph.sequences.all fun s => demoOperator.canControl body.rootId s.rolePath

set_option maxRecDepth 20000 in
theorem longBody_check : longBody.toOption.any (fun r => longCheck r.1) = true := by
  decide +kernel

/-- The program passes `preflight`, and its phase has a plan. -/
theorem longProgram_plan : ∃ (program checked : CompiledProgram ℚ) (phases : List (Val ℚ))
    (phase : Val ℚ) (plans : List (Str × PhasePlan ℚ)) (q : Str × PhasePlan ℚ),
    preflight demoRegistry (py "example_operator") program = .ok checked ∧
    checked.phases = .ok phases ∧ phases[0]? = some phase ∧
    workerPhasePlans (py "run") checked 0 phase = .ok plans ∧ q ∈ plans ∧
    phase.getItem "duration_us" = .ok (.int (2 ^ 63)) ∧
    ∃ b ph, PlanOf (py "run") b ph q.2 ∧ ph.durationUs = 2 ^ 63 := by
  obtain ⟨⟨body, sha⟩, hr, hcheck⟩ := (Option.any_eq_true _ _).1 longBody_check
  have hlong : longBody = .ok (body, sha) := toOption_eq_some.1 hr
  simp only [longBody, bind_eq_ok] at hlong
  obtain ⟨body', hbody, sha', hsha, he⟩ := hlong
  obtain ⟨rfl, rfl⟩ := Prod.mk.inj (Except.ok.inj he)
  simp only [longCheck, List.all_eq_true, Bool.and_eq_true, decide_eq_true_eq] at hcheck
  have hp : compile demoRegistry longTemplate = .ok ⟨entries body'.fields, sha'⟩ :=
    compile_eq_ok.2 ⟨body', hbody, hsha, rfl⟩
  have hid : demoRegistry.identity (py "example_operator") = .ok demoOperator := by rfl
  obtain ⟨checked, hpre, hdecoded⟩ :=
    preflight_of_compile hbody hid (fun ph hph s hs => (hcheck ph hph).2 s hs) hp
  obtain ⟨b, hb, hdecoded'⟩ := decoded_of_preflight Function.injective_id hpre
  obtain ⟨phases, hphases, hequals⟩ := hb.phases
  have hall := decoded_phases hdecoded hphases
  have hok := bodyOk_of_compile hbody
  cases hbphases : body'.phases with
  | nil => exact absurd hbphases hok.phases_ne
  | cons ph rest =>
    rw [hbphases] at hall
    obtain ⟨phase, tail, hphase, -, rfl⟩ := List.forall₂_cons_left_iff.1 hall
    have hmem : ph ∈ body'.phases := hbphases ▸ List.mem_cons_self ..
    obtain ⟨⟨hlen, hsha⟩, -⟩ := hcheck ph hmem
    -- the phase as validated has the digest and the sequences of the phase as compiled
    obtain ⟨ph', hph', hequal⟩ := hequals.exists_of_mem_right List.mem_cons_self
    obtain ⟨path, hphok⟩ := phaseOk_of_mem hb.bodyOk.phases ph' hph'
    obtain ⟨_, _, _, _, hdigest, -⟩ := equal_phaseFields hequal
    rw [(HashedPhase.decoded hphase).1] at hdigest
    obtain ⟨vs, plans, -, -, hplans, hsplits⟩ :=
      exists_splits hb hequal (Val.str.inj (Except.ok.inj hdigest) ▸ hsha) (py "run") 0
    obtain ⟨s, hs⟩ := List.exists_mem_of_ne_nil _ hphok.sequences_ne
    obtain ⟨q, hq, -⟩ := List.mem_map.1 ((hsplits.keys _).2 (List.mem_map_of_mem hs))
    have hdur := (HashedPhase.decoded hphase).2.2.1
    rw [hlen] at hdur
    exact ⟨_, checked, _, phase, plans, q, hpre, hphases, rfl, hplans, hq, hdur, b, ph,
      planOf_of_plans hb hphase hplans hq, hlen⟩

theorem plan_passes_long : ∃ (program checked : CompiledProgram ℚ) (phases : List (Val ℚ))
    (phase : Val ℚ) (plans : List (Str × PhasePlan ℚ)) (q : Str × PhasePlan ℚ),
    preflight demoRegistry (py "example_operator") program = .ok checked ∧
    checked.phases = .ok phases ∧ phases[0]? = some phase ∧
    workerPhasePlans (py "run") checked 0 phase = .ok plans ∧ q ∈ plans ∧
    ¬PlanPasses q.2.toVal ∧ PlanRefused q.2.toVal := by
  obtain ⟨program, checked, phases, phase, plans, q, hpre, hphases, hk, hplans, hq, hdur, -⟩ :=
    longProgram_plan
  obtain ⟨d, hd, hiff⟩ := plan_passes_iff Function.injective_id hpre hphases hk hplans
    (by decide) (by decide)
  obtain ⟨hpasses, -, hrefused⟩ := hiff q hq
  obtain rfl := Val.int.inj (Except.ok.inj (hdur.symm.trans hd))
  refine ⟨program, checked, phases, phase, plans, q, hpre, hphases, hk, hplans, hq, ?_, hrefused le_rfl⟩
  rw [hpasses]
  omega

/-- The program passes, and no plan of its phase has a payload. -/
theorem plan_counterexample : ∃ (program checked : CompiledProgram ℚ) (phases : List (Val ℚ))
    (phase : Val ℚ) (plans : List (Str × PhasePlan ℚ)) (q : Str × PhasePlan ℚ),
    preflight demoRegistry (py "example_operator") program = .ok checked ∧
    checked.phases = .ok phases ∧ phases[0]? = some phase ∧
    workerPhasePlans (py "run") checked 0 phase = .ok plans ∧ q ∈ plans ∧
    ∀ payload, Ipc.canonicalPayload q.2.toVal ≠ .ok payload := by
  obtain ⟨program, checked, phases, phase, plans, q, hpre, hphases, hk, hplans, hq, -, b, ph, hplan,
    hlen⟩ := longProgram_plan
  refine ⟨program, checked, phases, phase, plans, q, hpre, hphases, hk, hplans, hq, ?_⟩
  intro payload hpayload
  have hlt := hplan.duration_of_payload hpayload
  omega

end Demo

end RemoteRobot
