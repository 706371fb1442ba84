import RemoteRobot.Lib.Table
import RemoteRobot.Lib.PyValue

/-!
# The lease manager

`LeaseManager` owns two tables: who owns each target, and which grant each run holds.  `acquire`
and `release` are the two operations; both return the manager they leave behind, also where they
raise.  `LeaseManager.Inv` ties the tables together: a run owns exactly the targets of its grant.
It holds initially and both operations keep it, so two runs with a grant never share a target
(`Inv.disjoint`).
-/

namespace RemoteRobot

open Py

/-! ## Keys, targets and requests -/

/-- What `lease.py` raises. -/
inductive LeaseError where
  | value (label : String) (key : Str)
  | conflict (runId : Str) (conflicts : List ((String × Str) × Str))
  | requestMismatch (runId : Str)
  deriving DecidableEq

/-- The check `_canonical_keys` and `_run_id` share: no blank ends, no control characters, at most
512 characters. -/
def canonicalKey (key : Str) : Bool :=
  !key.isEmpty && key == strip key && key.length ≤ 512 && key.all fun c => 32 ≤ c

def canonicalKeys (label : String) : List Str → Except LeaseError (List Str)
  | [] => .ok []
  | key :: keys =>
    if canonicalKey key then (canonicalKeys label keys).map (key :: ·)
    else .error (.value label key)

/-- `_run_id` -/
def leaseRunId (runId : Str) : Except LeaseError Str :=
  if canonicalKey runId then .ok runId else .error (.value "run_id" runId)

inductive LeaseKind where
  | leaf | resource | safetyDomain
  deriving DecidableEq, Repr

def LeaseKind.name : LeaseKind → String
  | .leaf => "leaf"
  | .resource => "resource"
  | .safetyDomain => "safety_domain"

structure LeaseTarget where
  kind : LeaseKind
  key : Str
  deriving DecidableEq, Repr

/-- The lock set of one run.  A `frozenset` is the sorted list of its elements. -/
structure LeaseRequest where
  leafIds : List Str
  resourceKeys : List Str
  safetyDomainKeys : List Str
  deriving DecidableEq, Repr

/-- The constructor with its `__post_init__`. -/
def LeaseRequest.make (leaves resources safetyDomains : List Str) :
    Except LeaseError LeaseRequest := do
  let leafIds ← canonicalKeys "leaf" leaves
  let resourceKeys ← canonicalKeys "resource" resources
  let safetyDomainKeys ← canonicalKeys "safety domain" safetyDomains
  return ⟨sortedSet leafIds, sortedSet resourceKeys, sortedSet safetyDomainKeys⟩

/-- The targets in the order of `(kind, key)`. -/
def LeaseRequest.targets (r : LeaseRequest) : List LeaseTarget :=
  r.leafIds.map (⟨.leaf, ·⟩) ++ r.resourceKeys.map (⟨.resource, ·⟩) ++
    r.safetyDomainKeys.map (⟨.safetyDomain, ·⟩)

structure LeaseReceipt where
  runId : Str
  request : LeaseRequest
  acquiredAtMonotonicNs : ℕ
  deriving DecidableEq, Repr

theorem mem_targets_leaf {r : LeaseRequest} {k : Str} :
    ⟨.leaf, k⟩ ∈ r.targets ↔ k ∈ r.leafIds := by
  simp [LeaseRequest.targets]

theorem mem_targets_resource {r : LeaseRequest} {k : Str} :
    ⟨.resource, k⟩ ∈ r.targets ↔ k ∈ r.resourceKeys := by
  simp [LeaseRequest.targets]

theorem mem_targets_safetyDomain {r : LeaseRequest} {k : Str} :
    ⟨.safetyDomain, k⟩ ∈ r.targets ↔ k ∈ r.safetyDomainKeys := by
  simp [LeaseRequest.targets]

theorem canonicalKeys_eq_ok {label : String} {keys ks : List Str}
    (h : canonicalKeys label keys = .ok ks) : ks = keys := by
  induction keys generalizing ks with
  | nil => exact (Except.ok.inj h).symm
  | cons key keys ih =>
    unfold canonicalKeys at h
    split_ifs at h with hk
    cases hr : canonicalKeys label keys with
    | error e => rw [hr] at h; cases h
    | ok ks' =>
      rw [hr] at h
      rw [← Except.ok.inj h, ih hr]

/-- A request holds the keys it was made from. -/
theorem LeaseRequest.make_eq_ok {leaves resources safetyDomains : List Str} {r : LeaseRequest}
    (h : LeaseRequest.make leaves resources safetyDomains = .ok r) :
    r = ⟨sortedSet leaves, sortedSet resources, sortedSet safetyDomains⟩ := by
  unfold LeaseRequest.make at h
  cases h₁ : canonicalKeys "leaf" leaves with
  | error e => rw [h₁] at h; cases h
  | ok l =>
    cases h₂ : canonicalKeys "resource" resources with
    | error e => rw [h₁, h₂] at h; cases h
    | ok s =>
      cases h₃ : canonicalKeys "safety domain" safetyDomains with
      | error e => rw [h₁, h₂, h₃] at h; cases h
      | ok d =>
        rw [h₁, h₂, h₃] at h
        rw [← canonicalKeys_eq_ok h₁, ← canonicalKeys_eq_ok h₂, ← canonicalKeys_eq_ok h₃]
        exact (Except.ok.inj h).symm

/-! ## The manager -/

structure LeaseManager where
  owners : Table LeaseTarget Str := ∅
  grants : Table Str LeaseReceipt := ∅

namespace LeaseManager

def ownerOf (m : LeaseManager) (t : LeaseTarget) : Option Str := m.owners.get t

def grantFor (m : LeaseManager) (runId : Str) : Option LeaseReceipt := m.grants.get runId

/-- The requested targets another run owns, each with its owner. -/
def conflicts (m : LeaseManager) (owner : Str) (request : LeaseRequest) :
    List (LeaseTarget × Str) :=
  request.targets.filterMap fun t => match m.ownerOf t with
    | some heldBy => if heldBy = owner then none else some (t, heldBy)
    | none => none

/-- The loop that hands the targets to their new owner. -/
def setOwners (owner : Str) (owners : Table LeaseTarget Str) (ts : List LeaseTarget) :
    Table LeaseTarget Str :=
  ts.foldl (fun o t => o.insert t owner) owners

/-- The loop that drops the targets the owner still owns. -/
def dropOwners (owner : Str) (owners : Table LeaseTarget Str) (ts : List LeaseTarget) :
    Table LeaseTarget Str :=
  ts.foldl (fun o t => if o.get t = some owner then o.erase t else o) owners

def acquire (m : LeaseManager) (runId : Str) (leaves resources safetyDomains : List Str)
    (monotonicNs : ℕ) : LeaseManager × Except LeaseError LeaseReceipt :=
  match leaseRunId runId, LeaseRequest.make leaves resources safetyDomains with
  | .error e, _ => (m, .error e)
  | .ok _, .error e => (m, .error e)
  | .ok owner, .ok request =>
    match m.grantFor owner with
    | some existing =>
      if existing.request = request then (m, .ok existing)
      else (m, .error (.requestMismatch owner))
    | none =>
      let conflicts := m.conflicts owner request
      if conflicts ≠ [] then
        (m, .error (.conflict owner (conflicts.map fun c => ((c.1.kind.name, c.1.key), c.2))))
      else
        let grant : LeaseReceipt := ⟨owner, request, monotonicNs⟩
        ({ owners := setOwners owner m.owners request.targets
           grants := m.grants.insert owner grant }, .ok grant)

def release (m : LeaseManager) (runId : Str) : LeaseManager × Except LeaseError Bool :=
  match leaseRunId runId with
  | .error e => (m, .error e)
  | .ok owner =>
    match m.grantFor owner with
    | none => (m, .ok false)
    | some grant =>
      ({ owners := dropOwners owner m.owners grant.request.targets
         grants := m.grants.erase owner }, .ok true)

def activeGrants (m : LeaseManager) : List LeaseReceipt :=
  (sortedSet m.grants.keys).filterMap m.grantFor

/-! ## What the operations do -/

theorem get_setOwners (owner : Str) (o : Table LeaseTarget Str) (ts : List LeaseTarget)
    (t : LeaseTarget) :
    (setOwners owner o ts).get t = if t ∈ ts then some owner else o.get t := by
  induction ts generalizing o with
  | nil => rfl
  | cons s ts ih =>
    show (setOwners owner (o.insert s owner) ts).get t = _
    rw [ih, Table.get_insert]
    by_cases hs : t = s <;> by_cases ht : t ∈ ts <;> simp [hs, ht]

theorem get_dropOwners (owner : Str) (o : Table LeaseTarget Str) (ts : List LeaseTarget)
    (t : LeaseTarget) :
    (dropOwners owner o ts).get t =
      if t ∈ ts ∧ o.get t = some owner then none else o.get t := by
  induction ts generalizing o with
  | nil => simp [dropOwners]
  | cons s ts ih =>
    show (dropOwners owner (if o.get s = some owner then o.erase s else o) ts).get t = _
    rw [ih]
    by_cases hs : t = s
    · subst hs
      by_cases ho : o.get t = some owner <;> simp [ho, Table.get_erase]
    · have hget : Table.get (if o.get s = some owner then o.erase s else o) t = o.get t := by
        split_ifs
        · rw [Table.get_erase, if_neg hs]
        · rfl
      simp [hget, hs]

/-- A call that raises leaves the manager as it was; a call that returns either finds the grant
the run already holds or adds it, with every requested target free before. -/
theorem acquire_cases {m m' : LeaseManager} {runId : Str} {ls rs ds : List Str} {ns : ℕ}
    {r : Except LeaseError LeaseReceipt} (h : m.acquire runId ls rs ds ns = (m', r)) :
    (m' = m ∧ ∃ e, r = .error e) ∨
    (m' = m ∧ ∃ g, r = .ok g ∧ m.grantFor runId = some g ∧
      g.request = ⟨sortedSet ls, sortedSet rs, sortedSet ds⟩) ∨
    (∃ g : LeaseReceipt, r = .ok g ∧ g.runId = runId ∧ m.grantFor runId = none ∧
      g.request = ⟨sortedSet ls, sortedSet rs, sortedSet ds⟩ ∧
      (∀ t ∈ g.request.targets, ∀ o, m.ownerOf t = some o → o = runId) ∧
      m' = { owners := setOwners runId m.owners g.request.targets
             grants := m.grants.insert runId g }) := by
  unfold acquire at h
  by_cases hk : canonicalKey runId = true
  swap
  · left
    rw [show leaseRunId runId = .error (.value "run_id" runId) from if_neg hk] at h
    cases h
    exact ⟨rfl, _, rfl⟩
  rw [show leaseRunId runId = .ok runId from if_pos hk] at h
  cases hm : LeaseRequest.make ls rs ds with
  | error e =>
    rw [hm] at h
    cases h
    exact .inl ⟨rfl, _, rfl⟩
  | ok request =>
    have hreq := LeaseRequest.make_eq_ok hm
    rw [hm] at h
    simp only at h
    cases hg : m.grantFor runId with
    | some existing =>
      simp only [hg] at h
      split_ifs at h with heq
      · cases h
        exact .inr (.inl ⟨rfl, _, rfl, rfl, heq.trans hreq⟩)
      · cases h
        exact .inl ⟨rfl, _, rfl⟩
    | none =>
      simp only [hg] at h
      split_ifs at h with hc
      · cases h
        exact .inl ⟨rfl, _, rfl⟩
      · cases h
        refine .inr (.inr ⟨_, rfl, rfl, rfl, hreq, ?_, rfl⟩)
        intro t ht o ho
        have hnil : m.conflicts runId request = [] := not_ne_iff.1 hc
        unfold conflicts at hnil
        rw [List.filterMap_eq_nil_iff] at hnil
        have := hnil t ht
        simp only [ho] at this
        by_contra hne
        simp [hne] at this

/-- `release` removes the run's grant and what it owned, or changes nothing. -/
theorem release_cases {m m' : LeaseManager} {runId : Str} {r : Except LeaseError Bool}
    (h : m.release runId = (m', r)) :
    (m' = m ∧ ((∃ e, r = .error e) ∨ m.grantFor runId = none)) ∨
    (∃ g : LeaseReceipt, m.grantFor runId = some g ∧
      m' = { owners := dropOwners runId m.owners g.request.targets
             grants := m.grants.erase runId }) := by
  unfold release at h
  by_cases hk : canonicalKey runId = true
  swap
  · left
    rw [show leaseRunId runId = .error (.value "run_id" runId) from if_neg hk] at h
    cases h
    exact ⟨rfl, .inl ⟨_, rfl⟩⟩
  rw [show leaseRunId runId = .ok runId from if_pos hk] at h
  simp only at h
  cases hg : m.grantFor runId with
  | none =>
    simp only [hg] at h
    cases h
    exact .inl ⟨rfl, .inr rfl⟩
  | some g =>
    simp only [hg] at h
    cases h
    exact .inr ⟨g, rfl, rfl⟩

theorem grantFor_of_acquire {m m' : LeaseManager} {runId : Str} {ls rs ds : List Str} {ns : ℕ}
    {g : LeaseReceipt} (h : m.acquire runId ls rs ds ns = (m', .ok g)) (r : Str) :
    m'.grantFor r = if r = runId then some g else m.grantFor r := by
  rcases acquire_cases h with ⟨-, e, he⟩ | ⟨rfl, g', hg', hm, -⟩ | ⟨g', hg', -, -, -, -, rfl⟩
  · cases he
  · cases hg'
    split_ifs with hr
    · rw [hr, hm]
    · rfl
  · cases hg'
    exact Table.get_insert _ _ _ _

theorem canonicalKey_of_acquire {m m' : LeaseManager} {runId : Str} {ls rs ds : List Str} {ns : ℕ}
    {g : LeaseReceipt} (h : m.acquire runId ls rs ds ns = (m', .ok g)) : canonicalKey runId = true := by
  by_contra hkey
  unfold acquire at h
  rw [show leaseRunId runId = .error (.value "run_id" runId) from if_neg hkey] at h
  cases h

theorem grantFor_release (m : LeaseManager) {runId : Str} (hkey : canonicalKey runId = true)
    (r : Str) : (m.release runId).1.grantFor r = if r = runId then none else m.grantFor r := by
  unfold release
  rw [show leaseRunId runId = .ok runId from if_pos hkey]
  simp only
  cases hg : m.grantFor runId with
  | none =>
    split_ifs with hr
    · rw [hr]
      exact hg
    · rfl
  | some g => exact Table.get_erase _ _ _

/-! ## Owners and grants agree -/

/-- Each run owns exactly the targets of its grant. -/
structure Inv (m : LeaseManager) : Prop where
  owner_iff : ∀ t r, m.ownerOf t = some r ↔ ∃ g, m.grantFor r = some g ∧ t ∈ g.request.targets
  runId_eq : ∀ r g, m.grantFor r = some g → g.runId = r

theorem inv_empty : Inv {} where
  owner_iff := by simp [ownerOf, grantFor]
  runId_eq := by simp [grantFor]

theorem Inv.acquire {m : LeaseManager} (hI : m.Inv) (runId : Str) (ls rs ds : List Str) (ns : ℕ) :
    (m.acquire runId ls rs ds ns).1.Inv := by
  cases h : m.acquire runId ls rs ds ns with
  | mk m' r =>
  rcases acquire_cases h with ⟨rfl, -⟩ | ⟨rfl, -⟩ | ⟨g, -, hrun, hnone, -, hfree, rfl⟩
  · exact hI
  · exact hI
  constructor
  · intro t r'
    simp only [ownerOf, grantFor, get_setOwners, Table.get_insert]
    by_cases ht : t ∈ g.request.targets
    · rw [if_pos ht]
      constructor
      · rintro ⟨⟩
        exact ⟨g, if_pos rfl, ht⟩
      · rintro ⟨g', hg', ht'⟩
        split_ifs at hg' with hr
        · rw [hr]
        · -- a former owner of a requested target would have been a conflict
          have := hfree t ht r' ((hI.owner_iff t r').2 ⟨g', hg', ht'⟩)
          exact absurd this hr
    · rw [if_neg ht]
      refine (hI.owner_iff t r').trans ⟨?_, ?_⟩
      · rintro ⟨g', hg', ht'⟩
        have hne : r' ≠ runId := fun e => by rw [e, hnone] at hg'; cases hg'
        exact ⟨g', by rw [if_neg hne]; exact hg', ht'⟩
      · rintro ⟨g', hg', ht'⟩
        split_ifs at hg' with hr
        · cases hg'
          exact absurd ht' ht
        · exact ⟨g', hg', ht'⟩
  · intro r' g' hg'
    simp only [grantFor, Table.get_insert] at hg'
    split_ifs at hg' with hr
    · cases hg'
      rw [hr, hrun]
    · exact hI.runId_eq r' g' hg'

theorem Inv.release {m : LeaseManager} (hI : m.Inv) (runId : Str) : (m.release runId).1.Inv := by
  cases h : m.release runId with
  | mk m' r =>
  rcases release_cases h with ⟨rfl, -⟩ | ⟨g, hg, rfl⟩
  · exact hI
  constructor
  · intro t r'
    simp only [ownerOf, grantFor, get_dropOwners, Table.get_erase]
    have hrun : m.owners.get t = some runId ↔ t ∈ g.request.targets := by
      refine (hI.owner_iff t runId).trans ⟨?_, fun ht => ⟨g, hg, ht⟩⟩
      rintro ⟨g', hg', ht'⟩
      rw [hg] at hg'
      exact Option.some.inj hg' ▸ ht'
    by_cases hr : r' = runId
    · subst hr
      rw [if_pos rfl]
      constructor
      · intro ho
        split_ifs at ho with hc
        exact absurd ⟨hrun.1 ho, ho⟩ hc
      · rintro ⟨g', hg', -⟩
        cases hg'
    · rw [if_neg hr, ← grantFor, ← hI.owner_iff t r', ownerOf]
      split_ifs with hc
      · rw [hc.2]
        simp [Ne.symm hr]
      · rfl
  · intro r' g' hg'
    simp only [grantFor, Table.get_erase] at hg'
    split_ifs at hg'
    exact hI.runId_eq r' g' hg'

/-- Two runs that hold grants share no target. -/
theorem Inv.disjoint {m : LeaseManager} (hI : m.Inv) {r r' : Str} {g g' : LeaseReceipt}
    (hg : m.grantFor r = some g) (hg' : m.grantFor r' = some g') (hne : r ≠ r') {t : LeaseTarget}
    (ht : t ∈ g.request.targets) : t ∉ g'.request.targets := by
  intro ht'
  have h := (hI.owner_iff t r).2 ⟨g, hg, ht⟩
  have h' := (hI.owner_iff t r').2 ⟨g', hg', ht'⟩
  rw [h] at h'
  exact hne (Option.some.inj h')

/-- A release touches no target of another run. -/
theorem ownerOf_release (m : LeaseManager) {runId r : Str} {t : LeaseTarget} (hne : r ≠ runId)
    (h : m.ownerOf t = some r) : (m.release runId).1.ownerOf t = some r := by
  cases hm : m.release runId with
  | mk m' res =>
  rcases release_cases hm with ⟨rfl, -⟩ | ⟨g, -, rfl⟩
  · exact h
  · have hother : ¬(t ∈ g.request.targets ∧ m.owners.get t = some runId) := by
      intro hc
      rw [ownerOf, hc.2] at h
      exact hne (Option.some.inj h).symm
    simp only [ownerOf, get_dropOwners]
    rw [if_neg hother]
    exact h

end LeaseManager

/-! ## Runs of the manager -/

/-- One call, with the clock reading of `acquire`. -/
inductive LeaseCall where
  | acquire (runId : Str) (leaves resources safetyDomains : List Str) (monotonicNs : ℕ)
  | release (runId : Str)

namespace LeaseManager

/-- The manager after a call, also one that raises. -/
def call (m : LeaseManager) : LeaseCall → LeaseManager
  | .acquire runId leaves resources safetyDomains ns =>
    (m.acquire runId leaves resources safetyDomains ns).1
  | .release runId => (m.release runId).1

/-- A new manager after some calls. -/
def after (calls : List LeaseCall) : LeaseManager := calls.foldl call {}

theorem Inv.call {m : LeaseManager} (hI : m.Inv) (c : LeaseCall) : (m.call c).Inv := by
  cases c with
  | acquire runId ls rs ds ns => exact hI.acquire runId ls rs ds ns
  | release runId => exact hI.release runId

theorem Inv.calls {m : LeaseManager} (hI : m.Inv) (calls : List LeaseCall) :
    (calls.foldl LeaseManager.call m).Inv := by
  induction calls generalizing m with
  | nil => exact hI
  | cons c calls ih =>
    rw [List.foldl_cons]
    exact ih (hI.call c)

/-- After any calls, a run owns a target exactly when it has a grant for it.  So grants are
disjoint, nothing is owned without a grant, and a release leaves the targets of the other runs
alone.  The receipt that `acquire` returns is the grant of the run, which then owns its targets. -/
theorem owners_match_grants (calls : List LeaseCall) :
    (∀ t r, (after calls).ownerOf t = some r ↔
      ∃ g, (after calls).grantFor r = some g ∧ t ∈ g.request.targets) ∧
    (∀ r r' g g', (after calls).grantFor r = some g → (after calls).grantFor r' = some g' →
      r ≠ r' → ∀ t ∈ g.request.targets, t ∉ g'.request.targets) ∧
    (∀ r, (after calls).grantFor r = none → ∀ t, (after calls).ownerOf t ≠ some r) ∧
    (∀ runId r t, r ≠ runId → (after calls).ownerOf t = some r →
      ((after calls).release runId).1.ownerOf t = some r) ∧
    (∀ m runId ls rs ds ns g, (after calls).acquire runId ls rs ds ns = (m, .ok g) →
      m.grantFor runId = some g ∧ ∀ t ∈ g.request.targets, m.ownerOf t = some runId) := by
  have hI : (after calls).Inv := inv_empty.calls calls
  refine ⟨hI.owner_iff, ?_, ?_, ?_, ?_⟩
  · intro r r' g g' hg hg' hne t ht
    exact hI.disjoint hg hg' hne ht
  · intro r hnone t ht
    obtain ⟨g, hg, -⟩ := (hI.owner_iff t r).1 ht
    rw [hnone] at hg
    cases hg
  · intro runId r t hne h
    exact ownerOf_release _ hne h
  · intro m runId ls rs ds ns g h
    have hgrant : m.grantFor runId = some g := by rw [grantFor_of_acquire h, if_pos rfl]
    have hm : (after calls).call (.acquire runId ls rs ds ns) = m := congrArg Prod.fst h
    have hI' := hm ▸ hI.call (.acquire runId ls rs ds ns)
    exact ⟨hgrant, fun t ht => (hI'.owner_iff t runId).2 ⟨g, hgrant, ht⟩⟩

end LeaseManager

end RemoteRobot
