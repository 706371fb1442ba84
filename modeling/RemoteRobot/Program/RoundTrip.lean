import RemoteRobot.Program.Canonical

/-!
# Artifacts and their round trips

A compiled program survives `to_bytes`, `from_bytes` and the validation against its registry: the
decoded body reads as the compiled one (`Val.Reads`), so its digests agree and its template
compiles to the same records.  Conversely a program the validation accepts has the digest of the
program its own projection compiles to, and so its bytes.
-/

namespace RemoteRobot

open Py Except

variable {F : Type}

/-! ## The template of a decoded body -/

theorem reads_defaultCompletion {w : Val F} (h : (defaultCompletion : Val F).Reads w) :
    w = defaultCompletion := by
  obtain ⟨d, c, rfl, hp, u, c', rfl, hu, hc⟩ := h
  cases (show c' = [] from hc)
  rw [List.perm_singleton.1 hp.symm, show u = _ from hu]
  rfl

theorem templateSequence_reads {s : HashedSequence F} {v : Val F} (h : s.toVal.Reads v) :
    ∃ raw, ReadsSequence s raw ∧ templateSequence v = .ok raw := by
  obtain ⟨d, rfl, -, hf⟩ := reads_dict h (by simp [CompiledSequence.fields])
  have hrole := hf "role_path" (.str s.rolePath) (by simp [CompiledSequence.fields])
  have hschema := hf "command_schema" (.str s.commandSchema) (by simp [CompiledSequence.fields])
  have href := hf "reference" (.str s.reference) (by simp [CompiledSequence.fields])
  have hsamples := hf "samples" (.list (s.samples.map Sample.toVal))
    (by simp [CompiledSequence.fields])
  refine ⟨_, ⟨field "samples" d, hsamples.2, rfl⟩, ?_⟩
  unfold templateSequence
  simp only [bind_eq_ok]
  refine ⟨_, getItem_of_lookup hrole.1, _, getItem_of_lookup hschema.1, _,
    getItem_of_lookup href.1, _, getItem_of_lookup hsamples.1, ?_⟩
  rw [show field "role_path" d = _ from hrole.2, show field "command_schema" d = _ from hschema.2,
    show field "reference" d = _ from href.2]
  rfl

theorem templatePhase_reads {p : HashedPhase F} {v : Val F} (h : p.toVal.Reads v) :
    ∃ raw, ReadsPhase p raw ∧ templatePhase v = .ok raw := by
  obtain ⟨d, rfl, -, hf⟩ := reads_dict h (by simp [CompiledPhase.fields])
  have hid := hf "phase_id" (.str p.phaseId) (by simp [CompiledPhase.fields])
  have hcompletion := hf "completion" defaultCompletion (by simp [CompiledPhase.fields])
  have htransitions := hf "transitions" (.list []) (by simp [CompiledPhase.fields])
  have hsequences := hf "sequences" (.list (p.sequences.map HashedSequence.toVal))
    (by simp [CompiledPhase.fields])
  obtain ⟨vs, hvs, hall⟩ := reads_list hsequences.2
  have hempty : field "transitions" d = .list [] := by
    obtain ⟨ws, hws, hnil⟩ := htransitions.2
    rw [hws, show ws = [] from hnil]
  obtain ⟨raws, hraws, hmap⟩ := exists_mapM_eq_ok
    (fun (s : HashedSequence F) w hs => templateSequence_reads hs) hall
  refine ⟨_, ⟨raws, hraws, rfl⟩, ?_⟩
  unfold templatePhase
  simp only [bind_eq_ok]
  refine ⟨_, getItem_of_lookup hsequences.1, vs, by rw [hvs]; rfl, raws, hmap, _,
    getItem_of_lookup hid.1, _, getItem_of_lookup hcompletion.1, _,
    getItem_of_lookup htransitions.1, ?_⟩
  rw [show field "phase_id" d = _ from hid.2, reads_defaultCompletion hcompletion.2, hempty]
  rfl

theorem templateOf_reads {b : CompiledBody F} {d : Dict F} (h : (dictOf b.fields).Reads (.dict d)) :
    ∃ raws, List.Forall₂ ReadsPhase b.phases raws ∧
      templateOf d = .ok (templateBodyOf b raws) := by
  obtain ⟨_, hd, -, hf⟩ := reads_dict h (by simp [CompiledBody.fields])
  cases hd
  have hphases := hf "phases" (.list (b.phases.map HashedPhase.toVal))
    (by simp [CompiledBody.fields])
  have hprogram := hf "program_id" (.str b.programId) (by simp [CompiledBody.fields])
  have hroot := hf "root_id" (.str b.rootId) (by simp [CompiledBody.fields])
  obtain ⟨vs, hvs, hall⟩ := reads_list hphases.2
  obtain ⟨raws, hraws, hmap⟩ := exists_mapM_eq_ok
    (fun (p : HashedPhase F) w hp => templatePhase_reads hp) hall
  refine ⟨raws, hraws, ?_⟩
  unfold templateOf
  simp only [bind_eq_ok]
  refine ⟨_, getItem_of_lookup hphases.1, vs, by rw [hvs]; rfl, raws, hmap, _,
    getItem_of_lookup hprogram.1, _, getItem_of_lookup hroot.1, ?_⟩
  rw [show field "program_id" d = _ from hprogram.2, show field "root_id" d = _ from hroot.2]
  rfl

/-! ## Digests of decoded records -/

section Digests

variable [Cbor F] [LawfulCbor F] [Sha256]

theorem digestValue_reads {v w : Val F} (h : v.Reads w) :
    (digestValue w : Except (Error F) Str) = digestValue v := by
  unfold digestValue
  rw [LawfulCbor.dumps_reads v w h]

omit [Cbor F] [Sha256] [LawfulCbor F] in
/-- Dropping the last field of a record commutes with reading it back. -/
theorem reads_withoutKey [PyFloat F] {kvs : List (String × Val F)} {k : String} {v : Val F} {d : Dict F}
    (h : (dictOf (kvs ++ [(k, v)])).Reads (.dict d)) (hk : k ∉ kvs.map Prod.fst) :
    (dictOf kvs).Reads (.dict (withoutKey k d)) := by
  obtain ⟨_, c, hd, hp, hc⟩ := h
  cases hd
  rw [show entries (kvs ++ [(k, v)]) = entries kvs ++ entries [(k, v)] by simp [entries]] at hc
  obtain ⟨c₁, c₂, rfl, h₁, w, c₃, rfl, -, h₃⟩ := Val.readsDict_append hc
  cases (show c₃ = [] from h₃)
  refine ⟨_, c₁, rfl, ?_, h₁⟩
  have hkeys : ∀ p ∈ c₁, Key.eq (.str (py k)) p.1 = false := by
    intro p hp
    have hmem : p.1 ∈ c₁.map Prod.fst := List.mem_map_of_mem hp
    rw [Val.readsDict_keys h₁] at hmem
    simp only [entries, List.map_map, List.mem_map, Function.comp_apply] at hmem
    obtain ⟨q, hq, hqp⟩ := hmem
    rw [← hqp, Bool.eq_false_iff]
    intro he
    rw [Key.eq_str_iff, Key.str.injEq, py_inj] at he
    exact hk (he ▸ List.mem_map_of_mem hq)
  have hfilter := hp.filter fun p => !Key.eq (.str (py k)) p.1
  rw [List.filter_append, List.filter_eq_self.2 (fun p hp => by rw [hkeys p hp]; rfl)] at hfilter
  simpa [withoutKey, Key.eq_str_iff.2] using hfilter

/-- The digest stored in a decoded record is the digest of the rest of it. -/
theorem digest_withoutKey [PyFloat F] {kvs : List (String × Val F)} {sha : Str} {d : Dict F}
    (h : (dictOf (kvs ++ [("sha256", Val.str sha)])).Reads (.dict d))
    (hnd : ((kvs ++ [("sha256", Val.str sha)]).map Prod.fst).Nodup)
    (hsha : digestValue (dictOf kvs) = .ok sha) :
    digestValue (.dict (withoutKey "sha256" d)) = (.ok sha : Except (Error F) Str) ∧
      field "sha256" d = .str sha := by
  have hk : "sha256" ∉ kvs.map Prod.fst := by
    rw [List.map_append, List.nodup_append] at hnd
    exact fun hmem => hnd.2.2 _ hmem "sha256" (by simp) rfl
  refine ⟨(digestValue_reads (reads_withoutKey h hk)).trans hsha, ?_⟩
  obtain ⟨_, hd, -, hf⟩ := reads_dict h hnd
  cases hd
  refine (hf "sha256" (.str sha) ?_).2
  rw [lookup_eq_some_iff (nodup_entries hnd)]
  simp [entries]

theorem validateSequenceHash_reads [PyFloat F] {s : HashedSequence F} {v : Val F} {index : ℕ}
    (h : s.toVal.Reads v) (hsha : digestValue (dictOf s.fields) = .ok s.sha256) :
    validateSequenceHash index v = .ok () := by
  obtain ⟨d, rfl, -, -⟩ := reads_dict h (by simp [CompiledSequence.fields])
  obtain ⟨hd, hf⟩ := digest_withoutKey h (by simp [CompiledSequence.fields]) hsha
  unfold validateSequenceHash
  simp only [bind_eq_ok, raiseWhen_eq_ok]
  exact ⟨_, hd, by rw [hf]; simp [Val.eq]⟩

variable [PyFloat F]

omit [LawfulCbor F] in
theorem sequences_digest {R : Registry F} {rootId : Str} {path : String} {index : ℕ}
    {targets : List ResolvedTarget} {ss : List (HashedSequence F)}
    (h : SequencesOk R rootId path index targets ss) :
    ∀ s ∈ ss, digestValue (dictOf s.fields) = .ok s.sha256 := by
  induction ss generalizing index targets with
  | nil => simp
  | cons s ss ih =>
    rw [List.forall_mem_cons]
    exact ⟨h.2.2.1, ih h.2.2.2⟩

theorem validatePhaseHashes_reads {R : Registry F} {rootId : Str} {path : String}
    {p : HashedPhase F} {v o : Val F} {index : ℕ} (hp : PhaseOk R rootId path p)
    (hv : p.toVal.Reads v) (ho : p.outline.Reads o) : validatePhaseHashes index v o = .ok () := by
  obtain ⟨d, rfl, -, hf⟩ := reads_dict hv (by simp [CompiledPhase.fields])
  obtain ⟨e, rfl, -, hg⟩ := reads_dict ho (by simp)
  obtain ⟨hd, hsha⟩ := digest_withoutKey hv (by simp [CompiledPhase.fields]) hp.digest
  have hpayload : field "payload_sha256" e = .str p.sha256 :=
    (hg "payload_sha256" (.str p.sha256) (by simp)).2
  have hsequences := hf "sequences" (.list (p.sequences.map HashedSequence.toVal))
    (by simp [CompiledPhase.fields])
  obtain ⟨vs, hvs, hall⟩ := reads_list hsequences.2
  unfold validatePhaseHashes
  simp only [bind_eq_ok, raiseWhen_eq_ok, exists_unit, liftExc_eq_ok]
  refine ⟨_, hd, by rw [hsha, hpayload]; simp [Val.eq], vs, ?_, ?_⟩
  · rw [hsequences.1, hvs]
    rfl
  · refine forM_eq_ok.2 fun w hw => ?_
    obtain ⟨s, hs, hreads⟩ := hall.exists_of_mem_right hw
    exact validateSequenceHash_reads hreads (sequences_digest hp.sequences s hs)

theorem validatePhasesFrom_reads {R : Registry F} {rootId : Str} {i index : ℕ} {seen : List Str}
    {ps : List (HashedPhase F)} {vs os : List (Val F)} (hps : PhasesOk R rootId i seen ps)
    (hvs : List.Forall₂ (fun (p : HashedPhase F) v => p.toVal.Reads v) ps vs)
    (hos : List.Forall₂ (fun (p : HashedPhase F) o => p.outline.Reads o) ps os) :
    validatePhasesFrom index vs os = .ok () := by
  induction hvs generalizing i index seen os with
  | nil =>
    cases hos
    rfl
  | cons hv _ ih =>
    cases hos with
    | cons ho hos =>
      unfold validatePhasesFrom
      simp only [bind_eq_ok]
      exact ⟨_, validatePhaseHashes_reads hps.1 hv ho, ih hps.2.2 hos⟩

theorem validateCompiledInternalHashes_reads [PyText F] {R : Registry F} {b : CompiledBody F} {d : Dict F}
    (hb : BodyOk R b) (h : (dictOf b.fields).Reads (.dict d)) :
    validateCompiledInternalHashes d = .ok () := by
  obtain ⟨_, hd, -, hf⟩ := reads_dict h (by simp [CompiledBody.fields])
  cases hd
  have houtline := hf "outline" (outlineOf b.phases) (by simp [CompiledBody.fields])
  have hsha : field "outline_sha256" d = .str b.outlineSha256 :=
    (hf "outline_sha256" (.str b.outlineSha256) (by simp [CompiledBody.fields])).2
  have hphases := hf "phases" (.list (b.phases.map HashedPhase.toVal))
    (by simp [CompiledBody.fields])
  obtain ⟨vs, hvs, hall⟩ := reads_list hphases.2
  obtain ⟨o, ho, -, hg⟩ := reads_dict houtline.2 (by simp)
  have houtlines := hg "phases" (.list (b.phases.map HashedPhase.outline)) (by simp)
  obtain ⟨os, hos, hallo⟩ := reads_list houtlines.2
  have hdigest : digestValue (.dict o) = (.ok b.outlineSha256 : Except (Error F) Str) := by
    rw [← ho, digestValue_reads houtline.2, hb.outline]
  unfold validateCompiledInternalHashes
  rw [ho]
  simp only [bind_eq_ok, raiseWhen_eq_ok, exists_unit]
  refine ⟨_, hdigest, by rw [hsha]; simp [Val.eq], ?_⟩
  rw [hvs]
  simp only [bind_eq_ok]
  refine ⟨os, ?_, validatePhasesFrom_reads hb.phases hall hallo⟩
  rw [hos]
  exact if_pos (hallo.length_eq.symm.trans hall.length_eq)

end Digests

/-! ## Compiled bodies are plain -/

section Plain

variable [PyFloat F]

theorem plain_list_map {α : Type} {f : α → Val F} {xs : List α} (h : ∀ x ∈ xs, (f x).Plain) :
    (Val.list (xs.map f)).Plain := by
  refine Val.plain_list.2 fun v hv => ?_
  obtain ⟨x, hx, rfl⟩ := List.mem_map.1 hv
  exact h x hx

theorem plain_target (t : ResolvedTarget) : (t.toVal : Val F).Plain :=
  Val.plain_dictOf (by simp) (by simp [Val.Plain])

theorem plain_axes (axes : List AxisName) : (Val.list (axes.map AxisName.toVal) : Val F).Plain :=
  plain_list_map fun _ _ => Val.plain_dictOf (by simp) (by simp [Val.Plain])

theorem plain_completion : (defaultCompletion : Val F).Plain :=
  Val.plain_dictOf (by simp) (by simp [Val.Plain])

variable [LawfulFloat F]

theorem plain_samples {axes : List (DenseAxis F)} {reference commandSchema : Str}
    {path : String} {index : ℕ} {previous : Option (Sample F)} {ss : List (Sample F)}
    (h : SamplesOk axes reference commandSchema path index previous ss) :
    ∀ s ∈ ss, s.toVal.Plain := by
  induction ss generalizing index previous with
  | nil => simp
  | cons s ss ih =>
    rw [List.forall_mem_cons]
    refine ⟨Val.plain_dictOf (by simp) ?_, ih h.2⟩
    simp only [List.forall_mem_cons]
    refine ⟨trivial, plain_list_map fun x hx => ?_, by simp⟩
    exact LawfulFloat.eq_self x (List.all_eq_true.1 h.1.finite x hx)

theorem plain_sequence {R : Registry F} {rootId : Str} {path : String}
    {s : HashedSequence F} {r : ResolvedGroup F}
    (h : SequenceOk R rootId path s.toCompiledSequence r) : s.toVal.Plain := by
  refine Val.plain_dictOf (by simp [CompiledSequence.fields]) ?_
  simp only [CompiledSequence.fields, List.cons_append, List.nil_append, List.forall_mem_cons]
  exact ⟨trivial, plain_target _, trivial, trivial, plain_axes _, trivial,
    plain_list_map (plain_samples h.samples), trivial, by simp⟩

variable [Cbor F] [Sha256]

theorem sequences_plain {R : Registry F} {rootId : Str} {path : String} {index : ℕ}
    {targets : List ResolvedTarget} {ss : List (HashedSequence F)}
    (h : SequencesOk R rootId path index targets ss) : ∀ s ∈ ss, s.toVal.Plain := by
  induction ss generalizing index targets with
  | nil => simp
  | cons s ss ih =>
    obtain ⟨⟨r, hr⟩, -, -, hss⟩ := h
    rw [List.forall_mem_cons]
    exact ⟨plain_sequence hr, ih hss⟩

theorem plain_phase {R : Registry F} {rootId : Str} {path : String}
    {p : HashedPhase F} (h : PhaseOk R rootId path p) : p.toVal.Plain ∧ p.outline.Plain := by
  have hsequences := plain_list_map (sequences_plain h.sequences)
  constructor
  · refine Val.plain_dictOf (by simp [CompiledPhase.fields]) ?_
    simp only [CompiledPhase.fields, List.cons_append, List.nil_append, List.forall_mem_cons]
    exact ⟨trivial, trivial, plain_completion, trivial, hsequences, trivial, by simp⟩
  · refine Val.plain_dictOf (by simp) ?_
    simp only [List.forall_mem_cons]
    refine ⟨trivial, trivial, plain_list_map fun s _ => plain_target _, plain_list_map fun s _ => ?_,
      trivial, trivial, by simp⟩
    exact Val.plain_dictOf (by simp) (by simp [plain_target, Val.Plain])

theorem phases_plain {R : Registry F} {rootId : Str} {index : ℕ} {seen : List Str}
    {ps : List (HashedPhase F)} (h : PhasesOk R rootId index seen ps) :
    ∀ p ∈ ps, p.toVal.Plain ∧ p.outline.Plain := by
  induction ps generalizing index seen with
  | nil => simp
  | cons p ps ih =>
    rw [List.forall_mem_cons]
    exact ⟨plain_phase h.1, ih h.2.2⟩

theorem plain_body [PyText F] {R : Registry F} {b : CompiledBody F} (h : BodyOk R b) :
    (dictOf b.fields).Plain := by
  have hphases := phases_plain h.phases
  have houtline : (outlineOf b.phases).Plain := by
    refine Val.plain_dictOf (by simp) ?_
    simp only [List.forall_mem_cons]
    exact ⟨trivial, plain_list_map fun p hp => (hphases p hp).2, by simp⟩
  refine Val.plain_dictOf (by simp [CompiledBody.fields]) ?_
  simp only [CompiledBody.fields, List.forall_mem_cons]
  exact ⟨trivial, trivial, trivial, trivial, trivial, trivial, houtline, trivial,
    plain_list_map fun p hp => (hphases p hp).1, by simp⟩

end Plain

/-! ## The round trip -/

section RoundTrip

variable [Cbor F] [LawfulCbor F] [Sha256] [PyFloat F] [PyText F]

omit [LawfulCbor F] [PyFloat F] [PyText F] in
theorem digestValue_eq_ok {v : Val F} {sha : Str} :
    digestValue v = (.ok sha : Except (Error F) Str) ↔
      ∃ b, Cbor.dumps v = .ok b ∧ hexdigest b = sha := by
  unfold digestValue
  rw [liftExc_eq_ok, map_eq_ok]

omit [PyFloat F] [PyText F] in
/-- A body with a digest has bytes. -/
theorem toBytes_of_digest {p : CompiledProgram F}
    (h : digestValue (.dict p.body) = (.ok p.sha256 : Except (Error F) Str)) :
    ∃ data, p.toBytes = .ok data := by
  obtain ⟨b, hb, hsha⟩ := digestValue_eq_ok.1 h
  have hbody := encodable_of_dumps hb
  have hstr : encodable p.sha256 = true := hsha ▸ encodable_hexlify _
  have hkeys : encodable (py "body") = true ∧ encodable (py "sha256") = true := by decide
  have henv : p.envelope.encodable = true := by
    simp [CompiledProgram.envelope, dictOf, Val.encodable, Val.encodableDict, Key.encodable,
      hkeys.1, hkeys.2, hstr, ← hbody]
  obtain ⟨data, hdata⟩ := LawfulCbor.dumps_ok _ henv
  exact ⟨data, liftExc_eq_ok.2 hdata⟩

/-- What decoding an artifact returns: its digest, and a body that reads as its body. -/
theorem fromBytes_toBytes {R : Registry F} {b : CompiledBody F} {p : CompiledProgram F}
    (hb : BodyOk R b) (hbody : p.body = entries b.fields)
    (hsha : digestValue (.dict p.body) = (.ok p.sha256 : Except (Error F) Str)) {data : Bytes}
    (hdata : p.toBytes = .ok data) :
    ∃ d, (Val.dict p.body).Reads (.dict d) ∧ fromBytes data = .ok ⟨d, p.sha256⟩ := by
  have hdumps : Cbor.dumps p.envelope = .ok data := liftExc_eq_ok.1 hdata
  obtain ⟨w, hw, hreads⟩ := LawfulCbor.loads_dumps _ _ hdumps
  obtain ⟨e, rfl, hp, hf⟩ := reads_dict hreads (by simp)
  have hfield := (hf "body" (.dict p.body) (by simp)).2
  have hshaField : field "sha256" e = .str p.sha256 := (hf "sha256" (.str p.sha256) (by simp)).2
  obtain ⟨d, hd⟩ : ∃ d, field "body" e = .dict d := by
    obtain ⟨d, -, hd, -⟩ := hfield
    exact ⟨d, hd⟩
  rw [hd] at hfield
  have hbd : (dictOf b.fields).Reads (.dict d) := by
    rw [hbody] at hfield
    exact hfield
  obtain ⟨_, hd', -, hg⟩ := reads_dict hbd (by simp [CompiledBody.fields])
  cases hd'
  have hformat : field "format" d = .str compiledFormat :=
    (hg "format" (.str compiledFormat) (by simp [CompiledBody.fields])).2
  have hversion : field "version" d = .int 2 :=
    (hg "version" (.int 2) (by simp [CompiledBody.fields])).2
  have henv : isEnvelope e = true := by
    have hmem : ∀ k, k ∈ e.map Prod.fst ↔ k = Key.str (py "body") ∨ k = .str (py "sha256") := by
      intro k
      rw [hp.mem_iff]
      simp
    simp only [isEnvelope, Bool.and_eq_true, hasStr_iff, List.all_eq_true, Bool.or_eq_true,
      Key.eq_str_iff]
    exact ⟨⟨(hmem _).2 (.inl rfl), (hmem _).2 (.inr rfl)⟩, fun k hk => (hmem k).1 hk⟩
  refine ⟨d, hfield, ?_⟩
  unfold fromBytes
  rw [hw]
  simp only [fromValue, bind_eq_ok, raiseWhen_eq_ok, exists_unit, not_not, Bool.not_eq_false]
  refine ⟨data, ?_, rfl, henv, ?_⟩
  · exact liftExc_eq_ok.2 ((LawfulCbor.dumps_reads _ _ hreads).trans hdumps)
  · rw [hd, hshaField]
    simp only [checkEnvelope, bind_eq_ok, raiseWhen_eq_ok, exists_unit, not_not, Bool.not_eq_false]
    refine ⟨by rw [hformat, hversion]; simp [Val.eq], p.sha256, ?_, rfl,
      validateCompiledInternalHashes_reads hb hbd, trivial⟩
    rw [digestValue_reads hfield, hsha]

/-- The validation accepts a program whose body reads as a compiled body. -/
theorem validate_reads [LawfulFloat F] {R : Registry F} {b : CompiledBody F} {d : Dict F}
    {sha : Str} (hb : BodyOk R b) (hsha : digestValue (dictOf b.fields) = .ok sha)
    (h : (dictOf b.fields).Reads (.dict d)) : validateForCurrentRegistry R ⟨d, sha⟩ = .ok () := by
  obtain ⟨_, hd, -, hf⟩ := reads_dict h (by simp [CompiledBody.fields])
  cases hd
  have hserver := hf "server_id" (.str b.serverId) (by simp [CompiledBody.fields])
  have hroot := hf "root_id" (.str b.rootId) (by simp [CompiledBody.fields])
  have hhash := hf "manifest_hash" (.str b.manifestHash) (by simp [CompiledBody.fields])
  obtain ⟨raws, hraws, htemplate⟩ := templateOf_reads h
  have hstr : ∀ (k : String) (s : Str), lookup (py k) d = some (field k d) →
      (Val.str s).Reads (field k d) →
      liftExc (((Val.dict d).getItem k).bind Val.pyStr) = (.ok s : Except (Error F) Str) := by
    intro k s hk hs
    rw [show field k d = _ from hs] at hk
    exact liftExc_eq_ok.2 (pyStr_of_lookup hk)
  unfold validateForCurrentRegistry
  simp only [bind_eq_ok, raiseWhen_eq_ok, exists_unit, not_not, not_or, Bool.not_eq_false]
  refine ⟨sha, (digestValue_reads h).trans hsha, rfl, validateCompiledInternalHashes_reads hb h,
    b.serverId, hstr _ _ hserver.1 hserver.2, hb.serverId, b.rootId, hstr _ _ hroot.1 hroot.2,
    b.manifestHash, hb.manifestHash, b.manifestHash, hstr _ _ hhash.1 hhash.2, rfl,
    templateBodyOf b raws, ?_, ⟨entries b.fields, sha⟩, ?_, Val.Reads.eq (plain_body hb) h, rfl⟩
  · unfold templateFromCompiled
    rw [htemplate]
  · unfold compile
    simp only [bind_eq_ok]
    exact ⟨b, hb.compile hraws, sha, hsha, rfl⟩

omit [PyFloat F] [PyText F] in
/-- Records with one digest have one encoding. -/
theorem toBytes_eq_of_digest (hinj : Function.Injective Sha256.digest) {p q : CompiledProgram F}
    (hp : digestValue (.dict p.body) = (.ok p.sha256 : Except (Error F) Str))
    (hq : digestValue (.dict q.body) = (.ok q.sha256 : Except (Error F) Str))
    (hsha : p.sha256 = q.sha256) : p.toBytes = q.toBytes := by
  obtain ⟨b, hb, hbp⟩ := digestValue_eq_ok.1 hp
  obtain ⟨b', hb', hbq⟩ := digestValue_eq_ok.1 hq
  obtain rfl : b = b' := hinj (hexlify_injective (hbp.trans (hsha.trans hbq.symm)))
  obtain ⟨w, hw, hw'⟩ := exists_reads_of_dumps_eq hb hb'
  have henv : ∀ r : CompiledProgram F, (Val.dict r.body).Reads w →
      r.envelope.Reads (dictOf [("body", w), ("sha256", .str r.sha256)]) := fun r hr =>
    ⟨_, _, rfl, .refl _, w, _, rfl, hr, _, _, rfl, rfl, rfl⟩
  unfold CompiledProgram.toBytes canonicalCbor
  rw [← LawfulCbor.dumps_reads _ _ (henv p hw), ← LawfulCbor.dumps_reads _ _ (henv q hw'), hsha]

/-- Compiled programs survive serialisation and validation, and a program the validation accepts
has the bytes of what its projection compiles to. -/
theorem artifact_roundTrip [LawfulFloat F] (R : Registry F)
    (hinj : Function.Injective Sha256.digest) :
    (∀ template p, compile R template = .ok p → ∃ data q, p.toBytes = .ok data ∧
      fromBytes data = .ok q ∧ Val.eq (.dict p.body) (.dict q.body) = true ∧
      p.sha256 = q.sha256 ∧ validateForCurrentRegistry R q = .ok ()) ∧
    (∀ p, validateForCurrentRegistry R p = .ok () → ∃ template rebuilt data,
      templateFromCompiled p.body = .ok template ∧ compile R template = .ok rebuilt ∧
      rebuilt.toBytes = .ok data ∧ p.toBytes = .ok data) := by
  constructor
  · intro template p h
    obtain ⟨b, hb, hsha, hbody⟩ := compile_eq_ok.1 h
    have hok := bodyOk_of_compile hb
    have hdigest : digestValue (.dict p.body) = (.ok p.sha256 : Except (Error F) Str) := by
      rw [hbody]
      exact hsha
    obtain ⟨data, hdata⟩ := toBytes_of_digest hdigest
    obtain ⟨d, hreads, hfrom⟩ := fromBytes_toBytes hok hbody hdigest hdata
    rw [hbody] at hreads
    refine ⟨data, ⟨d, p.sha256⟩, hdata, hfrom, ?_, rfl, validate_reads hok hsha hreads⟩
    rw [hbody]
    exact Val.Reads.eq (plain_body hok) hreads
  · intro p h
    obtain ⟨b, hp⟩ := canonical_of_validate h
    obtain ⟨template, ht, hb⟩ := hp.rebuilt
    have hcompile : compile R template = .ok ⟨entries b.fields, p.sha256⟩ :=
      compile_eq_ok.2 ⟨b, hb, hp.digest_fields, rfl⟩
    obtain ⟨data, hdata⟩ := toBytes_of_digest hp.digest
    refine ⟨template, _, data, ht, hcompile, ?_, hdata⟩
    rw [← hdata]
    exact toBytes_eq_of_digest hinj hp.digest_fields hp.digest rfl

end RoundTrip

section Demo

/-- An injective stand-in for the hash. -/
local instance idDigest : Sha256 := ⟨id⟩

set_option maxRecDepth 20000 in
theorem artifact_roundTrip_demo : ∃ p data q, compile demoRegistry (demoTemplate "arm") = .ok p ∧
    p.toBytes = .ok data ∧ fromBytes data = .ok q ∧
    Val.eq (.dict p.body) (.dict q.body) = true ∧
    validateForCurrentRegistry demoRegistry q = .ok () := by
  have hok : (compile demoRegistry (demoTemplate "arm")).isOk = true := by decide +kernel
  obtain ⟨p, hp⟩ := exists_of_isOk hok
  obtain ⟨data, q, hdata, hq, heq, -, hvalid⟩ :=
    (artifact_roundTrip demoRegistry Function.injective_id).1 _ p hp
  exact ⟨p, data, q, hp, hdata, hq, heq, hvalid⟩

end Demo

end RemoteRobot
