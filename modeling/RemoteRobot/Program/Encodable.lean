import RemoteRobot.Lib.PlainCbor
import RemoteRobot.Program.Recompile
import RemoteRobot.Routes

/-!
# What the compiler encodes

Text with an unpaired surrogate has no CBOR encoding.  The names of an accepted registry were encoded
for its manifests, and all other text of a compiled program but the IDs of its phases and its own
comes from the registry or from the compiler (`CompiledPhase.encodable_iff`,
`CompiledBody.encodable_iff`).
-/

namespace RemoteRobot

open Py Except

variable {F : Type}

/-! ## Values that can be encoded -/

theorem encodable_of_lookup {d : Dict F} {k : Str} {v : Val F} (h : lookup k d = some v)
    (hd : (Val.dict d).encodable = true) : v.encodable = true := by
  rw [Val.encodable, Val.encodableDict_eq_all] at hd
  induction d with
  | nil => cases h
  | cons p d ih =>
    obtain ⟨k', w⟩ := p
    rw [List.all_cons, Bool.and_eq_true, Bool.and_eq_true] at hd
    cases k' with
    | str s =>
      rw [lookup_cons_str] at h
      split_ifs at h
      · rw [← Option.some.inj h]
        exact hd.1.2
      · exact ih h hd.2
    | _ => exact ih h hd.2

theorem encodable_field {d : Dict F} (k : String) (hd : (Val.dict d).encodable = true) :
    (field k d).encodable = true := by
  unfold field
  cases h : lookup (py k) d with
  | none => rfl
  | some v => exact encodable_of_lookup h hd

mutual

theorem encodable_toVal : ∀ k : Key F, k.toVal.encodable = k.encodable
  | .none | .bool _ | .int _ | .float _ | .str _ | .bytes _ => rfl
  | .tuple ks => by rw [Key.toVal, Val.encodable, Key.encodable, encodable_toVals ks]

theorem encodable_toVals : ∀ ks : List (Key F),
    Val.encodables (Key.toVal.toVals ks) = Key.encodables ks
  | [] => rfl
  | k :: ks => by
    rw [Key.toVal.toVals, Val.encodables, Key.encodables, encodable_toVal k, encodable_toVals ks]

end

/-- What an encodable value is made of can be encoded. -/
theorem encodable_iter {v : Val F} {items : List (Val F)} (h : v.iter = .ok items)
    (hv : v.encodable = true) : ∀ item ∈ items, item.encodable = true := by
  cases v with
  | list xs =>
    obtain rfl := Except.ok.inj h
    exact encodable_list.1 hv
  | tuple xs =>
    obtain rfl := Except.ok.inj h
    exact encodable_list.1 hv
  | dict kvs =>
    obtain rfl := Except.ok.inj h
    rw [Val.encodable, Val.encodableDict_eq_all, List.all_eq_true] at hv
    intro item hitem
    obtain ⟨p, hp, rfl⟩ := List.mem_map.1 hitem
    rw [encodable_toVal]
    exact (Bool.and_eq_true _ _ ▸ hv p hp).1
  | str s =>
    obtain rfl := Except.ok.inj h
    intro item hitem
    obtain ⟨c, hc, rfl⟩ := List.mem_map.1 hitem
    have hchar := List.all_eq_true.1 (show s.all (fun c => !isSurrogate c) = true from hv) c hc
    rw [Val.encodable, encodable_cons]
    exact ⟨by simpa using hchar, rfl⟩
  | bytes b =>
    obtain rfl := Except.ok.inj h
    intro item hitem
    obtain ⟨c, -, rfl⟩ := List.mem_map.1 hitem
    rfl
  | _ => cases h

theorem encodable_list_map {α : Type} {f : α → Val F} {xs : List α}
    (h : ∀ x ∈ xs, (f x).encodable = true) : (Val.list (xs.map f)).encodable = true := by
  rw [encodable_list]
  intro v hv
  obtain ⟨x, hx, rfl⟩ := List.mem_map.1 hv
  exact h x hx

theorem encodable_strList {ss : List Str} :
    (strList ss : Val F).encodable = true ↔ ∀ s ∈ ss, encodable s = true := by
  unfold strList
  rw [encodable_list]
  simp [Val.encodable]

theorem encodable_joinPath {segments : List Str} (h : ∀ s ∈ segments, encodable s = true) :
    encodable (Registry.joinPath segments) = true := by
  induction segments with
  | nil => rfl
  | cons s segments ih =>
    rw [List.forall_mem_cons] at h
    cases segments with
    | nil => exact h.1
    | cons t segments =>
      rw [joinPath_cons_cons, encodable_append, encodable_cons]
      exact ⟨h.1, rfl, ih h.2⟩

section Digests

variable [Cbor F] [Sha256] [PyFloat F]

omit [Cbor F] [Sha256] in
theorem encodable_withoutKey {d : Dict F} (k : String) (hd : (Val.dict d).encodable = true) :
    (Val.dict (withoutKey k d)).encodable = true := by
  rw [Val.encodable, Val.encodableDict_eq_all, List.all_eq_true] at hd ⊢
  exact fun p hp => hd p (List.mem_of_mem_filter hp)

theorem exists_digestValue [PlainCbor F] {v : Val F} (h : v.encodable = true) :
    ∃ sha, (digestValue v : Except (Error F) Str) = .ok sha ∧ Py.encodable sha = true := by
  obtain ⟨b, hb⟩ := PlainCbor.dumps_ok v h
  unfold digestValue
  rw [hb]
  exact ⟨_, rfl, encodable_hexlify _⟩

end Digests

/-! ## Names of the registry -/

section Registered

variable [Cbor F] [Sha256] [PyFloat F] [PyText F] {R : Registry F}

/-- A node of the registry has a manifest, and of any other node none is asked for in vain. -/
theorem describe_cases (h : R.check = .ok ()) (nodeId : Str) :
    (∃ d n own digest, R.find nodeId = some n ∧ OwnManifest R d n own ∧
      R.describe nodeId = .ok (dictOf (R.commonManifest n ++ own ++ [("manifest_hash", Val.str digest)])) ∧
      canonicalCborSha256 (dictOf (R.commonManifest n ++ own)) = (.ok digest : Except (Error F) Str)) ∨
    ∃ m, R.describe nodeId = .error (.registry m) := by
  cases hfind : R.find nodeId with
  | none =>
    refine .inr ?_
    unfold Registry.describe Registry.depth Registry.manifestFrom Registry.node
    rw [hfind]
    exact ⟨_, rfl⟩
  | some n =>
    obtain ⟨fields, hfields⟩ := (accepted_of_check h).manifests n (List.mem_of_find?_eq_some hfind)
    rw [nodeId_of_find hfind] at hfields
    obtain ⟨d, n', own, digest, -, hn', hown, rfl, hdigest⟩ := manifestFrom_eq_ok hfields
    obtain rfl := Option.some.inj (hfind.symm.trans hn')
    refine .inl ⟨d, n, own, digest, rfl, hown, ?_, hdigest⟩
    rw [Registry.describe, hfields]
    rfl

/-- The manifest of a node of the registry was encoded for its hash. -/
theorem encodable_manifest [PlainCbor F] (h : R.check = .ok ()) {nodeId : Str} {n : ControlNode F}
    (hfind : R.find nodeId = some n) : ∃ d own, OwnManifest R d n own ∧
      ∀ p ∈ R.commonManifest n ++ own, p.2.encodable = true := by
  obtain ⟨fields, hfields⟩ := (accepted_of_check h).manifests n (List.mem_of_find?_eq_some hfind)
  obtain ⟨d, n', own, digest, -, hn', hown, -, hdigest⟩ := manifestFrom_eq_ok hfields
  rw [nodeId_of_find hfind] at hn'
  obtain rfl := Option.some.inj (hfind.symm.trans hn')
  refine ⟨d, own, hown, ?_⟩
  simp only [canonicalCborSha256, liftExc_eq_ok, map_eq_ok] at hdigest
  obtain ⟨b, hb, -⟩ := hdigest
  exact encodable_dictOf.1 (PlainCbor.encodable_of_dumps hb)

/-- What the registry names for a node can be encoded. -/
theorem encodable_names [PlainCbor F] (h : R.check = .ok ()) {nodeId : Str} {n : ControlNode F}
    (hfind : R.find nodeId = some n) : encodable R.serverId = true ∧ encodable nodeId = true := by
  obtain ⟨d, own, -, hall⟩ := encodable_manifest h hfind
  refine ⟨hall ("server_id", .str R.serverId) (by simp [Registry.commonManifest]), ?_⟩
  rw [← nodeId_of_find hfind]
  exact hall ("node_id", .str n.nodeId) (by simp [Registry.commonManifest])

/-- So can the names of a group. -/
structure GroupEncodable (g : ActuatorGroupSpec F) : Prop where
  groupId : encodable g.groupId = true
  schemas : ∀ s ∈ g.commandSchemas, encodable s = true
  axes : ∀ a ∈ g.axes, encodable a.axisId = true ∧ encodable a.kind = true ∧ encodable a.unit = true

theorem groupEncodable_of_find [PlainCbor F] (h : R.check = .ok ()) {nodeId : Str}
    {p : PhysicalNode F} (hfind : R.find nodeId = some (.physical p)) {g : ActuatorGroupSpec F}
    (hg : g ∈ p.groups) : GroupEncodable g := by
  obtain ⟨d, own, rfl, hall⟩ := encodable_manifest h hfind
  have hgroups := hall ("groups", .list (p.groups.map ActuatorGroupSpec.publicDict))
    (by simp [Registry.physicalManifest])
  have hdict := encodable_list.1 hgroups _ (List.mem_map_of_mem hg)
  unfold ActuatorGroupSpec.publicDict at hdict
  rw [encodable_dictOf] at hdict
  refine ⟨hdict ("group_id", .str g.groupId) (by simp), ?_, fun a ha => ?_⟩
  · exact encodable_strList.1 (hdict ("command_schemas", strList g.commandSchemas) (by simp))
  · have haxis := encodable_list.1 (hdict ("axes", .list (g.axes.map AxisSpec.publicDict)) (by simp)) _
      (List.mem_map_of_mem ha)
    unfold AxisSpec.publicDict at haxis
    rw [encodable_dictOf] at haxis
    exact ⟨haxis ("axis_id", .str a.axisId) (by simp), haxis ("kind", .str a.kind) (by simp),
      haxis ("unit", .str a.unit) (by simp)⟩

theorem Route.encodable_roles [PlainCbor F] (h : R.check = .ok ()) {nodeId : Str} {roles : List Str}
    {p : PhysicalNode F} (hroute : Route R nodeId roles p) : ∀ s ∈ roles, encodable s = true := by
  induction hroute with
  | here => exact fun s hs => absurd hs List.not_mem_nil
  | child hfind href _ ih =>
    rw [List.forall_mem_cons]
    refine ⟨?_, ih⟩
    obtain ⟨d, own, ⟨children, physical, rfl, hchildren⟩, hall⟩ := encodable_manifest h hfind
    have hlist := hall ("children", .list children) (by simp [Registry.compositeManifest])
    obtain ⟨v, hv, m, -, hm⟩ := hchildren.exists_of_mem_left href
    have hdict := encodable_list.1 hlist v hv
    obtain ⟨hash, -, hm⟩ := bind_eq_ok.1 hm
    rw [← Except.ok.inj hm, encodable_dictOf] at hdict
    exact hdict ("role", .str _) (by simp)

/-- A role path that resolves is made of names of the registry. -/
theorem encodable_resolved [PlainCbor F] (h : R.check = .ok ()) {rootId path : Str}
    {r : ResolvedGroup F} (hr : R.resolveGroup rootId path = .ok r) : encodable path = true ∧
      encodable r.physicalNodeId = true ∧ encodable r.groupId = true ∧ GroupEncodable r.group := by
  obtain ⟨roles, p, g, hroute, hg, rfl, rfl⟩ := (resolveGroup_eq_ok (accepted_of_check h).named).1 hr
  have hgroup := groupEncodable_of_find h hroute.find hg
  refine ⟨encodable_joinPath fun s hs => ?_, (encodable_names h hroute.find).2, hgroup.groupId, hgroup⟩
  rw [List.mem_append, List.mem_singleton] at hs
  obtain hs | rfl := hs
  · exact hroute.encodable_roles h s hs
  · exact hgroup.groupId

end Registered

/-! ## Compiled records -/

section Compiled

variable [Cbor F] [Sha256] [PyFloat F] [PyText F] {R : Registry F} {rootId : Str}

omit [Cbor F] [Sha256] [PyFloat F] [PyText F] in
theorem encodable_axes {r : ResolvedGroup F} (h : GroupEncodable r.group) :
    (Val.list (((normalizeResolution r).2.map fun a => AxisName.mk a.name a.kind a.unit).map
      AxisName.toVal) : Val F).encodable = true := by
  refine encodable_list_map fun a ha => ?_
  simp only [normalizeResolution, List.map_map, List.mem_map, Function.comp_apply] at ha
  obtain ⟨axis, haxis, rfl⟩ := ha
  obtain ⟨hname, hkind, hunit⟩ := h.axes axis haxis
  rw [AxisName.toVal, encodable_dictOf]
  simp [Val.encodable, hname, hkind, hunit]

omit [Cbor F] [Sha256] [PyFloat F] [PyText F] in
theorem encodable_samples (ss : List (Sample F)) :
    (Val.list (ss.map Sample.toVal)).encodable = true := by
  refine encodable_list_map fun s _ => ?_
  have hvalues : (Val.list (s.values.map Val.float)).encodable = true :=
    encodable_list_map fun _ _ => rfl
  rw [Sample.toVal, encodable_dictOf]
  simp only [List.forall_mem_cons, List.not_mem_nil, false_imp_iff, implies_true, and_true]
  exact ⟨rfl, hvalues⟩

variable [PlainCbor F] (hR : R.check = .ok ())

include hR

theorem SequenceOk.encodable {path : String} {s : CompiledSequence F} {r : ResolvedGroup F}
    (h : SequenceOk R rootId path s r) : ∀ p ∈ s.fields, p.2.encodable = true := by
  obtain ⟨hpath, hnode, hgroup, hnames⟩ := encodable_resolved hR h.resolve
  have htarget : (s.resolvedTarget.toVal : Val F).encodable = true := by
    rw [h.target, ResolvedTarget.toVal, encodable_dictOf]
    simp [normalizeResolution, Val.encodable, hnode, hgroup]
  have hreference : Py.encodable s.reference = true := by
    obtain he | he := h.reference
    · rw [he]
      exact encodable_py _
    · rw [he]
      exact encodable_py _
  have haxes : (Val.list (s.axes.map AxisName.toVal) : Val F).encodable = true :=
    h.axes ▸ encodable_axes hnames
  simp only [CompiledSequence.fields, List.forall_mem_cons, List.not_mem_nil, false_imp_iff,
    implies_true, and_true]
  exact ⟨hpath, htarget, hnames.schemas _ h.schema, hreference, haxes, rfl, encodable_samples _⟩

/-- The records of a sequence with its digest. -/
theorem HashedSequence.encodable {path : String} {s : HashedSequence F} {r : ResolvedGroup F}
    (h : SequenceOk R rootId path s.toCompiledSequence r)
    (hsha : (digestValue (dictOf s.fields) : Except (Error F) Str) = .ok s.sha256) :
    s.toVal.encodable = true ∧ s.outline.encodable = true ∧
      (s.resolvedTarget.toVal : Val F).encodable = true := by
  have hfields := h.encodable hR
  obtain ⟨sha, hsha', henc⟩ := exists_digestValue (encodable_dictOf.2 hfields)
  obtain rfl := Except.ok.inj (hsha.symm.trans hsha')
  simp only [CompiledSequence.fields, List.forall_mem_cons] at hfields
  obtain ⟨hpath, htarget, hschema, hreference, haxes, -, hsamples, -⟩ := hfields
  refine ⟨?_, ?_, htarget⟩
  · rw [HashedSequence.toVal, encodable_dictOf]
    simp only [CompiledSequence.fields, List.cons_append, List.nil_append, List.forall_mem_cons,
      List.not_mem_nil, false_imp_iff, implies_true, and_true]
    exact ⟨hpath, htarget, hschema, hreference, haxes, rfl, hsamples, henc⟩
  · rw [HashedSequence.outline, encodable_dictOf]
    simp only [List.forall_mem_cons, List.not_mem_nil, false_imp_iff, implies_true, and_true]
    exact ⟨hpath, htarget, hschema, hreference, rfl, henc⟩

theorem SequencesOk.encodable {path : String} {index : ℕ} {targets : List ResolvedTarget}
    {ss : List (HashedSequence F)} (h : SequencesOk R rootId path index targets ss) :
    ∀ s ∈ ss, s.toVal.encodable = true ∧ s.outline.encodable = true ∧
      (s.resolvedTarget.toVal : Val F).encodable = true := by
  induction ss generalizing index targets with
  | nil => exact fun s hs => absurd hs List.not_mem_nil
  | cons s ss ih =>
    obtain ⟨⟨r, hr⟩, -, hsha, hrest⟩ := h
    rw [List.forall_mem_cons]
    exact ⟨s.encodable hR hr hsha, ih hrest⟩

/-- Only its ID keeps a compiled phase from being encoded. -/
theorem CompiledPhase.encodable_iff {path : String} {p : CompiledPhase F}
    (h : SequencesOk R rootId path 0 [] p.sequences) :
    (dictOf p.fields).encodable = true ↔ Py.encodable p.phaseId = true := by
  have hseq : (Val.list (p.sequences.map HashedSequence.toVal)).encodable = true :=
    encodable_list_map fun s hs => (h.encodable hR s hs).1
  have hcompletion : (defaultCompletion : Val F).encodable = true :=
    encodable_dictOf.2 (List.forall_mem_singleton.2 (encodable_py _))
  rw [encodable_dictOf]
  simp only [CompiledPhase.fields, List.forall_mem_cons, List.not_mem_nil, false_imp_iff,
    implies_true, and_true]
  exact ⟨fun h => h.1, fun h => ⟨h, rfl, hcompletion, rfl, hseq⟩⟩

/-- The records of a phase with its digest. -/
theorem PhaseOk.encodable {path : String} {p : HashedPhase F} (h : PhaseOk R rootId path p) :
    p.toVal.encodable = true ∧ p.outline.encodable = true := by
  obtain ⟨b, hb, -⟩ : ∃ b, Cbor.dumps (dictOf p.fields) = .ok b ∧ hexdigest b = p.sha256 := by
    have hdigest := h.digest
    simpa only [digestValue, liftExc_eq_ok, map_eq_ok] using hdigest
  have hdict := PlainCbor.encodable_of_dumps hb
  have hid : Py.encodable p.phaseId = true := (CompiledPhase.encodable_iff hR h.sequences).1 hdict
  obtain ⟨sha, hsha, henc⟩ := exists_digestValue hdict
  obtain rfl := Except.ok.inj (h.digest.symm.trans hsha)
  have hseq := h.sequences.encodable hR
  refine ⟨?_, ?_⟩
  · rw [HashedPhase.toVal, encodable_dictOf]
    rw [encodable_dictOf] at hdict
    intro q hq
    obtain hq | hq := List.mem_append.1 hq
    · exact hdict q hq
    · rw [List.mem_singleton.1 hq]
      exact henc
  · rw [HashedPhase.outline, encodable_dictOf]
    simp only [List.forall_mem_cons, List.not_mem_nil, false_imp_iff, implies_true, and_true]
    exact ⟨hid, rfl, encodable_list_map fun s hs => (hseq s hs).2.2,
      encodable_list_map fun s hs => (hseq s hs).2.1, rfl, henc⟩

theorem PhasesOk.encodable {index : ℕ} {seen : List Str} {ps : List (HashedPhase F)}
    (h : PhasesOk R rootId index seen ps) :
    ∀ p ∈ ps, p.toVal.encodable = true ∧ p.outline.encodable = true := by
  induction ps generalizing index seen with
  | nil => exact fun p hp => absurd hp List.not_mem_nil
  | cons p ps ih =>
    rw [List.forall_mem_cons]
    exact ⟨h.1.encodable hR, ih h.2.2⟩

theorem encodable_outlineOf {index : ℕ} {seen : List Str} {ps : List (HashedPhase F)}
    (h : PhasesOk R rootId index seen ps) : (outlineOf ps).encodable = true := by
  rw [outlineOf, encodable_dictOf]
  simp only [List.forall_mem_cons, List.not_mem_nil, false_imp_iff, implies_true, and_true]
  exact ⟨rfl, encodable_list_map fun p hp => (h.encodable hR p hp).2⟩

/-- Only the ID of the program keeps a compiled body from being encoded. -/
theorem CompiledBody.encodable_iff {b : CompiledBody F} (h : BodyOk R b) :
    (dictOf b.fields).encodable = true ↔ Py.encodable b.programId = true := by
  obtain ⟨body, hm, hdigest⟩ := manifestHash_eq_ok h.manifestHash
  obtain ⟨_, n, _, _, _, hfind, _⟩ := manifestFrom_eq_ok hm
  obtain ⟨hserver, hroot⟩ := encodable_names hR hfind
  have hhash : ∀ {v : Val F} {sha : Str}, canonicalCborSha256 v = (.ok sha : Except (Error F) Str) →
      Py.encodable sha = true := by
    intro v sha hsha
    simp only [canonicalCborSha256, liftExc_eq_ok, map_eq_ok] at hsha
    obtain ⟨_, -, rfl⟩ := hsha
    exact encodable_hexlify _
  have hphases : (Val.list (b.phases.map HashedPhase.toVal)).encodable = true :=
    encodable_list_map fun p hp => (h.phases.encodable hR p hp).1
  rw [encodable_dictOf]
  simp only [CompiledBody.fields, List.forall_mem_cons, List.not_mem_nil, false_imp_iff,
    implies_true, and_true]
  refine ⟨fun h => h.2.2.1, fun hid => ?_⟩
  exact ⟨encodable_py _, rfl, hid, h.serverId ▸ hserver, hroot, hhash hdigest,
    encodable_outlineOf hR h.phases, hhash h.outline, hphases⟩

end Compiled

end RemoteRobot
