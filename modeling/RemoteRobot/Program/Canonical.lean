import RemoteRobot.Program.Recompile

/-!
# What a validated program is

`Canonical R p b`: the program `p` equals, in Python's sense, what the compiler makes of `p`'s own
projection, and `b` is that compiler output with its types.  Everything the orchestrator reads off
`p.body` can be read off `b` instead.
-/

namespace RemoteRobot

open Py Except

variable {F : Type}


/-! ## Equality of records -/

section Equal

variable [PyFloat F]

/-- Python's `v == w`. -/
def Equal (v w : Val F) : Prop := Val.eq v w = true

theorem Equal.str {s : Str} {w : Val F} (h : Equal (.str s) w) : w = .str s := Val.eq_str h

theorem Equal.list {α : Type} {f : α → Val F} {xs : List α} {w : Val F}
    (h : Equal (.list (xs.map f)) w) :
    ∃ ws, w = .list ws ∧ List.Forall₂ (fun x w => Equal (f x) w) xs ws := by
  obtain ⟨ws, rfl, hws⟩ := Val.eq_list h
  refine ⟨ws, rfl, ?_⟩
  rw [Val.eqs_iff_forall₂, List.forall₂_map_left_iff] at hws
  exact hws

theorem Equal.dict {kvs : List (String × Val F)} {w : Val F} (h : Equal (dictOf kvs) w) :
    ∃ d, w = .dict d ∧ ∀ k v, lookup (py k) (entries kvs) = some v →
      lookup (py k) d = some (field k d) ∧ Equal v (field k d) := by
  obtain ⟨d, rfl, hd⟩ := Val.eq_dict h
  refine ⟨d, rfl, fun k v hk => ?_⟩
  obtain ⟨u, hu, he⟩ := Val.subDict_lookup hd hk
  unfold field
  rw [hu]
  exact ⟨rfl, he⟩

end Equal

/-! ## Members of checked lists -/

section Members

variable [Cbor F] [Sha256] [PyFloat F]

theorem sequenceOk_of_mem {R : Registry F} {rootId : Str} {path : String} {i : ℕ}
    {targets : List ResolvedTarget} {ss : List (HashedSequence F)}
    (h : SequencesOk R rootId path i targets ss) :
    ∀ s ∈ ss, ∃ path r, SequenceOk R rootId path s.toCompiledSequence r := by
  induction ss generalizing i targets with
  | nil => simp
  | cons s ss ih =>
    rw [List.forall_mem_cons]
    exact ⟨⟨_, h.1⟩, ih h.2.2.2⟩

theorem phaseOk_of_mem {R : Registry F} {rootId : Str} {i : ℕ} {seen : List Str}
    {ps : List (HashedPhase F)} (h : PhasesOk R rootId i seen ps) :
    ∀ p ∈ ps, ∃ path, PhaseOk R rootId path p := by
  induction ps generalizing i seen with
  | nil => simp
  | cons p ps ih =>
    rw [List.forall_mem_cons]
    exact ⟨⟨_, h.1⟩, ih h.2.2⟩

end Members

section Canonical

variable [Cbor F] [Sha256] [PyFloat F] [PyText F]

/-! ## The validation -/

structure Canonical (R : Registry F) (p : CompiledProgram F) (b : CompiledBody F) : Prop where
  rebuilt : ∃ template, templateFromCompiled p.body = .ok template ∧
    compileBody R template = .ok b
  equal : Equal (dictOf b.fields) (.dict p.body)
  digest : digestValue (.dict p.body) = .ok p.sha256
  digest_fields : digestValue (dictOf b.fields) = .ok p.sha256

theorem compile_eq_ok {R : Registry F} {template : Val F} {p : CompiledProgram F} :
    compile R template = .ok p ↔ ∃ b, compileBody R template = .ok b ∧
      digestValue (dictOf b.fields) = .ok p.sha256 ∧ p.body = entries b.fields := by
  unfold compile
  simp only [bind_eq_ok]
  constructor
  · rintro ⟨b, hb, sha, hsha, h⟩
    cases h
    exact ⟨b, hb, hsha, rfl⟩
  · rintro ⟨b, hb, hsha, hbody⟩
    refine ⟨b, hb, _, hsha, ?_⟩
    rw [← hbody]

theorem canonical_of_validate {R : Registry F} {p : CompiledProgram F}
    (h : validateForCurrentRegistry R p = .ok ()) : ∃ b, Canonical R p b := by
  unfold validateForCurrentRegistry at h
  simp only [bind_eq_ok, raiseWhen_eq_ok, not_not, not_or, Bool.not_eq_false] at h
  obtain ⟨digest, hd, -, rfl, -, -, -, -, -, -, -, -, -, -, -, -, -, -, template, ht, rebuilt, hr,
    heq, hsha⟩ := h
  obtain ⟨b, hb, hdb, hbody⟩ := compile_eq_ok.1 hr
  refine ⟨b, ⟨template, ht, hb⟩, ?_, hd, ?_⟩
  · rw [hbody] at heq
    exact heq
  · rw [hdb, hsha]

/-! ## Reading the body -/

namespace Canonical

variable {R : Registry F} {p : CompiledProgram F} {b : CompiledBody F}

theorem getItem (h : Canonical R p b) {k : String} {v : Val F}
    (hk : lookup (py k) (entries b.fields) = some v) :
    ∃ u, (Val.dict p.body).getItem k = .ok u ∧ Equal v u := Val.eq_getItem h.equal hk

theorem rootId (h : Canonical R p b) : p.rootId = .ok b.rootId := by
  obtain ⟨u, hu, he⟩ := h.getItem (k := "root_id") (v := .str b.rootId)
    (by simp [CompiledBody.fields])
  rw [CompiledProgram.rootId, hu, he.str]
  rfl

theorem manifestHash (h : Canonical R p b) : p.manifestHash = .ok b.manifestHash := by
  obtain ⟨u, hu, he⟩ := h.getItem (k := "manifest_hash") (v := .str b.manifestHash)
    (by simp [CompiledBody.fields])
  rw [CompiledProgram.manifestHash, hu, he.str]
  rfl

theorem phases (h : Canonical R p b) :
    ∃ vs, p.phases = .ok vs ∧ List.Forall₂ (fun ph v => Equal ph.toVal v) b.phases vs := by
  obtain ⟨u, hu, he⟩ := h.getItem (k := "phases") (v := .list (b.phases.map HashedPhase.toVal))
    (by simp [CompiledBody.fields])
  obtain ⟨vs, rfl, hvs⟩ := he.list
  refine ⟨vs, ?_, hvs⟩
  rw [CompiledProgram.phases, hu]
  rfl

theorem outline (h : Canonical R p b) :
    ∃ o, p.outline = .ok o ∧ Equal (outlineOf b.phases) o := by
  obtain ⟨u, hu, he⟩ := h.getItem (k := "outline") (v := outlineOf b.phases)
    (by simp [CompiledBody.fields])
  exact ⟨u, by rw [CompiledProgram.outline, hu]; rfl, he⟩

end Canonical

namespace Canonical

variable {R : Registry F} {p : CompiledProgram F} {b : CompiledBody F}

theorem bodyOk (h : Canonical R p b) : BodyOk R b := by
  obtain ⟨template, -, hb⟩ := h.rebuilt
  exact bodyOk_of_compile hb

/-- A compiled sequence goes where the registry resolves its role path to. -/
theorem resolve (h : Canonical R p b) {ph : HashedPhase F} (hph : ph ∈ b.phases)
    {s : HashedSequence F} (hs : s ∈ ph.sequences) :
    ∃ r, R.resolveGroup b.rootId s.rolePath = .ok r ∧
      s.resolvedTarget = ⟨r.physicalNodeId, r.groupId⟩ := by
  obtain ⟨path, hphase⟩ := phaseOk_of_mem h.bodyOk.phases ph hph
  obtain ⟨path, r, hr⟩ := sequenceOk_of_mem hphase.sequences s hs
  exact ⟨r, hr.resolve, hr.target⟩

end Canonical

end Canonical

end RemoteRobot
