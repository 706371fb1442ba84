import RemoteRobot.Journal.Store
import RemoteRobot.Orchestrator.Branches

/-!
# The names of a lease request

The lock set of a program is made of the canonical IDs of its groups and of the resources and safety
domains along their role branches (`lockRequirements_isLockUnion`).  The registry takes any
non-empty string for the last two and identifiers of any length, while the lease manager takes what
has no blank ends, no control characters and at most 512 characters.  `acquire` decides about a
request when all names are of that kind, and else refuses one of them (`acquire_decides_iff`).
-/

namespace RemoteRobot

open Py Except Registry

variable {F : Type}

/-! ## Keys -/

theorem canonicalKeys_cases (label : String) (keys : List Str) :
    ((∀ key ∈ keys, canonicalKey key = true) ∧ canonicalKeys label keys = .ok keys) ∨
    ∃ key ∈ keys, canonicalKey key = false ∧ canonicalKeys label keys = .error (.value label key) := by
  induction keys with
  | nil => exact .inl ⟨fun _ h => absurd h List.not_mem_nil, rfl⟩
  | cons key keys ih =>
    unfold canonicalKeys
    by_cases hk : canonicalKey key = true
    · rw [if_pos hk]
      obtain ⟨hall, he⟩ | ⟨bad, hbad, hfalse, he⟩ := ih
      · exact .inl ⟨List.forall_mem_cons.2 ⟨hk, hall⟩, by rw [he]; rfl⟩
      · exact .inr ⟨bad, List.mem_cons_of_mem _ hbad, hfalse, by rw [he]; rfl⟩
    · rw [if_neg hk]
      exact .inr ⟨key, List.mem_cons_self .., by simpa using hk, rfl⟩

theorem strip_of_all {s : Str} (h : ∀ c ∈ s, isSpace c = false) : strip s = s := by
  have hkeep : ∀ t : Str, (∀ c ∈ t, isSpace c = false) → t.dropWhile isSpace = t := by
    intro t ht
    cases t with
    | nil => rfl
    | cons c t => exact List.dropWhile_cons_of_neg (by rw [ht c (List.mem_cons_self ..)]; decide)
  unfold strip
  rw [hkeep s h, hkeep s.reverse fun c hc => h c (List.mem_reverse.1 hc), List.reverse_reverse]

section Names

variable [PyText F]

/-- A canonical ID is a key unless it is too long. -/
theorem canonicalKey_canonicalId {physicalId groupId : Str}
    (hp : ∀ c ∈ physicalId, isSpace c = false ∧ 32 ≤ c)
    (hg : ∀ c ∈ groupId, isSpace c = false ∧ 32 ≤ c) :
    canonicalKey (physicalId ++ py "." ++ groupId) = true ↔
      (physicalId ++ py "." ++ groupId).length ≤ 512 := by
  have hall : ∀ c ∈ physicalId ++ py "." ++ groupId, isSpace c = false ∧ 32 ≤ c := by
    intro c hc
    simp only [List.mem_append] at hc
    obtain (hc | hc) | hc := hc
    · exact hp c hc
    · obtain rfl := List.mem_singleton.1 (show c ∈ [46] from hc)
      decide
    · exact hg c hc
  have hne : (physicalId ++ py "." ++ groupId).isEmpty = false := by
    rw [List.isEmpty_eq_false_iff, List.append_assoc]
    exact List.append_ne_nil_of_right_ne_nil _ (List.cons_ne_nil 46 _)
  have hchars : (physicalId ++ py "." ++ groupId).all (fun c => decide (32 ≤ c)) = true :=
    List.all_eq_true.2 fun c hc => decide_eq_true (hall c hc).2
  unfold canonicalKey
  rw [strip_of_all fun c hc => (hall c hc).1, hne, hchars]
  simp

end Names

/-! ## What `acquire` says -/

theorem LeaseRequest.make_cases (ls rs ds : List Str) :
    ((∀ key ∈ ls ++ rs ++ ds, canonicalKey key = true) ∧
      ∃ request, LeaseRequest.make ls rs ds = .ok request) ∨
    ∃ label, ∃ key ∈ ls ++ rs ++ ds, canonicalKey key = false ∧
      LeaseRequest.make ls rs ds = .error (.value label key) := by
  unfold LeaseRequest.make
  obtain ⟨hl, he⟩ | ⟨key, hkey, hfalse, he⟩ := canonicalKeys_cases "leaf" ls
  swap
  · exact .inr ⟨_, key, by simp [hkey], hfalse, by rw [he]; rfl⟩
  obtain ⟨hr, he'⟩ | ⟨key, hkey, hfalse, he'⟩ := canonicalKeys_cases "resource" rs
  swap
  · exact .inr ⟨_, key, by simp [hkey], hfalse, by rw [he, he']; rfl⟩
  obtain ⟨hd, he''⟩ | ⟨key, hkey, hfalse, he''⟩ := canonicalKeys_cases "safety domain" ds
  swap
  · exact .inr ⟨_, key, by simp [hkey], hfalse, by rw [he, he', he'']; rfl⟩
  refine .inl ⟨fun key hkey => ?_, _, by rw [he, he', he'']; rfl⟩
  simp only [List.mem_append] at hkey
  obtain (h | h) | h := hkey
  · exact hl key h
  · exact hr key h
  · exact hd key h

/-- A grant, a conflict with another run or a mismatch with the grant the run holds. -/
def Decided : Except LeaseError LeaseReceipt → Prop
  | .ok _ | .error (.conflict ..) | .error (.requestMismatch _) => True
  | .error (.value ..) => False

theorem decided_acquire {m : LeaseManager} {runId : Str} {ls rs ds : List Str} {ns : ℕ}
    (hrun : canonicalKey runId = true) : Decided (m.acquire runId ls rs ds ns).2 ↔
      ∀ key ∈ ls ++ rs ++ ds, canonicalKey key = true := by
  have howner : leaseRunId runId = .ok runId := if_pos hrun
  unfold LeaseManager.acquire
  rw [howner]
  obtain ⟨hall, request, he⟩ | ⟨label, key, hkey, hfalse, he⟩ := LeaseRequest.make_cases ls rs ds
  · rw [he]
    refine iff_of_true ?_ hall
    simp only
    split
    · split_ifs
      · trivial
      · trivial
    · split_ifs
      · trivial
      · trivial
  · rw [he]
    refine iff_of_false id fun hall => ?_
    rw [hall key hkey] at hfalse
    cases hfalse

/-- The journal and the lease manager accept the same run IDs. -/
theorem canonicalKey_of_validateRunId {runId owner : Str}
    (h : validateRunId (.str runId : Val F) = .ok owner) : canonicalKey runId = true := by
  unfold validateRunId at h
  simp only at h
  split_ifs at h with hne hlong
  simp only [Bool.or_eq_true, not_or, bne_iff_ne, ne_eq, not_not, List.any_eq_true, not_exists,
    decide_eq_true_eq, not_and, not_lt, Bool.not_eq_true] at hne hlong
  unfold canonicalKey
  simp only [Bool.and_eq_true, Bool.not_eq_true', beq_iff_eq, decide_eq_true_eq, List.all_eq_true]
  exact ⟨⟨⟨hne.1, hne.2⟩, hlong.1⟩, hlong.2⟩

/-! ## The lock set -/

section Locks

/-- The locks of these sequences, no more and no fewer. -/
structure IsLockUnion (R : Registry F) (rootId : Str) (locks : LockRequirements)
    (sequences : List (HashedSequence F)) : Prop where
  leaves : ∀ x, x ∈ locks.leaves ↔ ∃ s ∈ sequences,
    x = s.resolvedTarget.physicalNodeId ++ py "." ++ s.resolvedTarget.groupId
  resources : ∀ x, x ∈ locks.resources ↔ ∃ s ∈ sequences,
    ∃ n ∈ roleBranch R rootId s.rolePath, x ∈ n.resources
  safetyDomains : ∀ x, x ∈ locks.safetyDomains ↔ ∃ s ∈ sequences,
    ∃ n ∈ roleBranch R rootId s.rolePath, x ∈ n.safetyDomains

variable {R : Registry F} {rootId : Str}

/-- Two pairings of lists, one behind the other. -/
theorem forall₂_comp {α β γ : Type} {P : α → β → Prop} {Q : β → γ → Prop} {xs : List α} {ys : List β}
    {zs : List γ} (h : List.Forall₂ P xs ys) (h' : List.Forall₂ Q ys zs) :
    List.Forall₂ (fun x z => ∃ y, P x y ∧ Q y z) xs zs := by
  induction h generalizing zs with
  | nil =>
    cases h'
    exact .nil
  | cons hp _ ih =>
    cases h' with
    | cons hq h' => exact .cons ⟨_, hp, hq⟩ (ih h')

theorem isLockUnion_nil : IsLockUnion R rootId .empty [] := by
  constructor <;> simp [LockRequirements.empty]

theorem IsLockUnion.append {a b : LockRequirements} {ss ts : List (HashedSequence F)}
    (ha : IsLockUnion R rootId a ss) (hb : IsLockUnion R rootId b ts) :
    IsLockUnion R rootId (a.union b) (ss ++ ts) := by
  refine ⟨fun x => ?_, fun x => ?_, fun x => ?_⟩
  · show x ∈ a.leaves ++ b.leaves ↔ _
    rw [List.mem_append, ha.leaves, hb.leaves]
    simp only [List.mem_append, or_and_right, exists_or]
  · show x ∈ a.resources ++ b.resources ↔ _
    rw [List.mem_append, ha.resources, hb.resources]
    simp only [List.mem_append, or_and_right, exists_or]
  · show x ∈ a.safetyDomains ++ b.safetyDomains ↔ _
    rw [List.mem_append, ha.safetyDomains, hb.safetyDomains]
    simp only [List.mem_append, or_and_right, exists_or]

theorem isLockUnion_unionLocks {α : Type} {f : α → List (HashedSequence F)} {xs : List α}
    {locks : List LockRequirements}
    (h : List.Forall₂ (fun x l => IsLockUnion R rootId l (f x)) xs locks) :
    IsLockUnion R rootId (unionLocks locks) (xs.flatMap f) := by
  induction h with
  | nil => exact isLockUnion_nil
  | cons hx _ ih =>
    rw [List.flatMap_cons]
    exact hx.append ih

variable [Cbor F] [Sha256] [PyFloat F]

theorem outlineSequenceLocks_isLockUnion {d : ℕ} {fields : List (String × Val F)}
    {s : HashedSequence F} {v : Val F} {locks : LockRequirements}
    (hm : R.manifestFrom d rootId = .ok fields) (h : Equal s.outline v)
    (hl : outlineSequenceLocks (entries fields) v = .ok locks) : IsLockUnion R rootId locks [s] := by
  obtain ⟨e, t, rfl, hrole, htarget, hp, hg⟩ := equal_outlineSequence h
  unfold outlineSequenceLocks at hl
  simp only [bind_eq_ok, plainMapping, Except.ok.injEq, exists_eq_left', htarget, hp, hg, hrole] at hl
  obtain ⟨branch, hbranch, rfl⟩ := hl
  obtain ⟨_, root, _, _, _, hroot, _⟩ := manifestFrom_eq_ok hm
  have hunion := (route_of_collect hm hroot hbranch).2
  have hnodes : roleBranch R rootId s.rolePath = branchNodes R root (split 46 s.rolePath) := by
    unfold roleBranch
    rw [hroot]
  refine ⟨fun x => ?_, fun x => ?_, fun x => ?_⟩
  · show x ∈ [_] ++ branch.leaves ↔ _
    rw [hunion.leaves]
    simp
  · show x ∈ [] ++ branch.resources ↔ _
    rw [List.nil_append, hunion.resources]
    simp only [List.mem_singleton, exists_eq_left, hnodes]
  · show x ∈ [] ++ branch.safetyDomains ↔ _
    rw [List.nil_append, hunion.safetyDomains]
    simp only [List.mem_singleton, exists_eq_left, hnodes]

theorem outlinePhaseLocks_isLockUnion {d : ℕ} {fields : List (String × Val F)} {p : HashedPhase F}
    {v : Val F} {locks : LockRequirements} (hm : R.manifestFrom d rootId = .ok fields)
    (h : Equal p.outline v) (hl : outlinePhaseLocks (entries fields) v = .ok locks) :
    IsLockUnion R rootId locks p.sequences := by
  obtain ⟨e, vs, rfl, hvs, hall⟩ := equal_outlinePhase h
  unfold outlinePhaseLocks at hl
  simp only [bind_eq_ok, plainMapping, Except.ok.injEq, exists_eq_left', hvs] at hl
  obtain ⟨ls, hls, rfl⟩ := hl
  have hfor : List.Forall₂ (fun s l => IsLockUnion R rootId l [s]) p.sequences ls := by
    refine (forall₂_comp hall (mapM_eq_ok.1 hls)).imp ?_
    rintro s l ⟨w, he, hr⟩
    exact outlineSequenceLocks_isLockUnion hm he hr
  have hunion := isLockUnion_unionLocks hfor
  rwa [List.flatMap_singleton'] at hunion

/-- The lock set of a program is exactly the locks of its sequences. -/
theorem lockRequirements_isLockUnion [PyText F] {p : CompiledProgram F} {b : CompiledBody F}
    {locks : LockRequirements} (hb : Canonical R p b) (h : lockRequirements R p = .ok locks) :
    IsLockUnion R b.rootId locks (b.phases.flatMap fun ph => ph.sequences) := by
  obtain ⟨o, ho, heq⟩ := hb.outline
  obtain ⟨e, rfl, hf⟩ := heq.dict
  obtain ⟨vs, hvs, hall⟩ :=
    (hf "phases" (.list (b.phases.map HashedPhase.outline)) (by simp)).2.list
  unfold lockRequirements at h
  simp only [bind_eq_ok, hb.rootId, ho, Registry.describe, map_eq_ok, Except.ok.injEq,
    exists_eq_left'] at h
  obtain ⟨_, ⟨fields, hm, rfl⟩, _, hd, _, ho', h⟩ := h
  cases hd
  cases ho'
  rw [hvs] at h
  simp only [bind_eq_ok, Except.ok.injEq] at h
  obtain ⟨ls, hls, rfl⟩ := h
  exact isLockUnion_unionLocks ((forall₂_comp hall (mapM_eq_ok.1 hls)).imp fun p l ⟨w, he, hr⟩ =>
    outlinePhaseLocks_isLockUnion hm he hr)

end Locks

/-! ## Requests of a run -/

section Requests

variable [Cbor F] [Sha256] [PyFloat F] [PyText F]

/-- The names behind the locks of a sequence are of the kind the lease manager takes. -/
structure Leasable (R : Registry F) (rootId : Str) (s : HashedSequence F) : Prop where
  leaf : (s.resolvedTarget.physicalNodeId ++ py "." ++ s.resolvedTarget.groupId).length ≤ 512
  branch : ∀ n ∈ roleBranch R rootId s.rolePath, ∀ key ∈ n.resources ++ n.safetyDomains,
    canonicalKey key = true

/-- The leaf a sequence locks is a key unless it is too long. -/
theorem canonicalKey_leaf (R : CapabilityRegistry F) {p : CompiledProgram F} {b : CompiledBody F}
    (hb : Canonical R.toRegistry p b) {ph : HashedPhase F} (hph : ph ∈ b.phases)
    {s : HashedSequence F} (hs : s ∈ ph.sequences) :
    canonicalKey (s.resolvedTarget.physicalNodeId ++ py "." ++ s.resolvedTarget.groupId) = true ↔
      (s.resolvedTarget.physicalNodeId ++ py "." ++ s.resolvedTarget.groupId).length ≤ 512 := by
  obtain ⟨r, hr, htarget⟩ := hb.resolve hph hs
  obtain ⟨roles, p, g, hroute, hg, -, rfl⟩ :=
    (resolveGroup_eq_ok (accepted_of_check R.accepted).named).1 hr
  obtain ⟨hnode, hgroups⟩ := identified_of_check R.accepted _ hroute.mem
  rw [htarget]
  exact canonicalKey_canonicalId (chars_of_requireIdentifier hnode)
    (chars_of_requireIdentifier (hgroups g hg))

/-- The call of `acquire` for a program that passed `preflight` decides about the request just when
every resource and safety domain along its role branches is a canonical key and none of its leaves is
longer than 512 characters. -/
theorem acquire_decides_iff (R : CapabilityRegistry F) {identityId runId owner : Str}
    {program checked : CompiledProgram F} {locks : LockRequirements}
    (hpre : preflight R.toRegistry identityId program = .ok checked)
    (hlocks : lockRequirements R.toRegistry checked = .ok locks)
    (hrun : validateRunId (.str runId : Val F) = .ok owner) :
    ∃ b, Canonical R.toRegistry checked b ∧ ∀ (m : LeaseManager) ns,
      (Decided (m.acquire runId locks.leaves locks.resources locks.safetyDomains ns).2 ↔
        ∀ ph ∈ b.phases, ∀ s ∈ ph.sequences, Leasable R.toRegistry b.rootId s) := by
  obtain ⟨b, hb, -⟩ := preflighted_of_preflight hpre
  have hunion := lockRequirements_isLockUnion hb hlocks
  refine ⟨b, hb, fun m ns => ?_⟩
  rw [decided_acquire (canonicalKey_of_validateRunId hrun)]
  constructor
  · intro hall ph hph s hs
    have hmem : s ∈ b.phases.flatMap fun ph => ph.sequences := List.mem_flatMap.2 ⟨ph, hph, hs⟩
    refine ⟨(canonicalKey_leaf R hb hph hs).1 (hall _ ?_), fun n hn key hkey => hall _ ?_⟩
    · simp only [List.mem_append]
      exact .inl (.inl ((hunion.leaves _).2 ⟨s, hmem, rfl⟩))
    · simp only [List.mem_append]
      rcases List.mem_append.1 hkey with hkey | hkey
      · exact .inl (.inr ((hunion.resources _).2 ⟨s, hmem, n, hn, hkey⟩))
      · exact .inr ((hunion.safetyDomains _).2 ⟨s, hmem, n, hn, hkey⟩)
  · intro hall key hkey
    simp only [List.mem_append] at hkey
    have hleasable : ∀ s ∈ b.phases.flatMap fun ph => ph.sequences, ∃ ph ∈ b.phases,
        s ∈ ph.sequences ∧ Leasable R.toRegistry b.rootId s := by
      intro s hs
      obtain ⟨ph, hph, hs⟩ := List.mem_flatMap.1 hs
      exact ⟨ph, hph, hs, hall ph hph s hs⟩
    obtain (h | h) | h := hkey
    · obtain ⟨s, hs, rfl⟩ := (hunion.leaves key).1 h
      obtain ⟨ph, hph, hs, hl⟩ := hleasable s hs
      exact (canonicalKey_leaf R hb hph hs).2 hl.leaf
    · obtain ⟨s, hs, n, hn, hk⟩ := (hunion.resources key).1 h
      obtain ⟨ph, hph, hs, hl⟩ := hleasable s hs
      exact hl.branch n hn key (List.mem_append_left _ hk)
    · obtain ⟨s, hs, n, hn, hk⟩ := (hunion.safetyDomains key).1 h
      obtain ⟨ph, hph, hs, hl⟩ := hleasable s hs
      exact hl.branch n hn key (List.mem_append_right _ hk)

end Requests

/-! ### A resource with a blank in front -/

section Demo

local instance leasingHash : Sha256 := lengthHash

def spacedRegistry : Registry ℚ :=
  { demoRegistry with nodes := [.physical { demoRobot with resources := [py " bus"] }] }

theorem spacedRegistry_accepted : spacedRegistry.check = .ok () := by
  have hok : spacedRegistry.check.isOk = true := by decide +kernel
  obtain ⟨_, h⟩ := exists_of_isOk hok
  exact h

/-- The lock set `execute` would ask for. -/
def askedLocks (R : Registry ℚ) : Except (Error ℚ) (CompiledProgram ℚ × LockRequirements) := do
  let program ← compile R (demoTemplate "arm")
  let checked ← preflight R (py "example_operator") program
  let locks ← lockRequirements R checked
  .ok (checked, locks)

theorem spacedRegistry_refused : ∃ (program checked : CompiledProgram ℚ) (locks : LockRequirements),
    preflight spacedRegistry (py "example_operator") program = .ok checked ∧
    lockRequirements spacedRegistry checked = .ok locks ∧
    (LeaseManager.acquire {} (py "run") locks.leaves locks.resources locks.safetyDomains 0).2 =
      .error (.value "resource" (py " bus")) := by
  have hsome : (askedLocks spacedRegistry).toOption.any (fun r => decide
      ((LeaseManager.acquire {} (py "run") r.2.leaves r.2.resources r.2.safetyDomains 0).2 =
        .error (.value "resource" (py " bus")))) = true := by
    decide +kernel
  obtain ⟨⟨checked, locks⟩, hr, h⟩ := (Option.any_eq_true _ _).1 hsome
  have hasked : askedLocks spacedRegistry = .ok (checked, locks) := toOption_eq_some.1 hr
  simp only [askedLocks, bind_eq_ok] at hasked
  obtain ⟨program, -, checked', hchecked, locks', hlocks, he⟩ := hasked
  obtain ⟨rfl, rfl⟩ := Prod.mk.inj (Except.ok.inj he)
  exact ⟨program, checked', locks', hchecked, hlocks, of_decide_eq_true h⟩

theorem acquire_decides_spaced : ∃ (program checked : CompiledProgram ℚ) (locks : LockRequirements),
    preflight spacedRegistry (py "example_operator") program = .ok checked ∧
    lockRequirements spacedRegistry checked = .ok locks ∧
    ∃ b, Canonical spacedRegistry checked b ∧
      ¬∀ ph ∈ b.phases, ∀ s ∈ ph.sequences, Leasable spacedRegistry b.rootId s := by
  obtain ⟨program, checked, locks, hchecked, hlocks, hrefused⟩ := spacedRegistry_refused
  have hrun : validateRunId (.str (py "run") : Val ℚ) = .ok (py "run") := rfl
  obtain ⟨b, hb, hiff⟩ := acquire_decides_iff ⟨spacedRegistry, spacedRegistry_accepted⟩ hchecked
    hlocks hrun
  refine ⟨program, checked, locks, hchecked, hlocks, b, hb, fun hall => ?_⟩
  have hdecided := (hiff {} 0).2 hall
  rw [hrefused] at hdecided
  exact hdecided

/-- The registry is accepted, the program passes, and `acquire` rejects the resource. -/
theorem acquire_counterexample : spacedRegistry.check = .ok () ∧
    ∃ (program checked : CompiledProgram ℚ) (locks : LockRequirements),
      preflight spacedRegistry (py "example_operator") program = .ok checked ∧
      lockRequirements spacedRegistry checked = .ok locks ∧
      (validateRunId (.str (py "run")) : Except (JournalError ℚ) Str) = .ok (py "run") ∧
      (LeaseManager.acquire {} (py "run") locks.leaves locks.resources locks.safetyDomains 0).2 =
        .error (.value "resource" (py " bus")) := by
  obtain ⟨program, checked, locks, hchecked, hlocks, hrefused⟩ := spacedRegistry_refused
  exact ⟨spacedRegistry_accepted, program, checked, locks, hchecked, hlocks, rfl, hrefused⟩

end Demo

end RemoteRobot
