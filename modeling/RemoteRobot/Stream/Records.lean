import RemoteRobot.Stream.Protocol

/-!
# Reading the records of a trajectory

`from_record` of a point and of a header, on any value a message can hold.  A point is read through
`set`, iteration and `float`, which take more than the format says: an array of the three field
names passes for an object, and `float` reads booleans and numeric strings and overflows on integers
no double can hold.  `PointRegular` says which values reach none of this.
-/

namespace RemoteRobot.Stream

open Py Except

variable {F : Type}

/-- `set(record) == {...}`, from the elements of the set -/
def exactKeys [PyFloat F] (fields : List String) (keys : List (Key F)) : Bool :=
  fields.all (fun k => hasStr k keys) &&
    keys.all fun k => fields.any fun f => Key.eq (.str (py f)) k

theorem exactKeys_eq_true [PyFloat F] {fields : List String} {keys : List (Key F)} :
    exactKeys fields keys = true ↔ ∀ k, k ∈ keys ↔ ∃ f ∈ fields, k = .str (py f) := by
  unfold exactKeys
  simp only [Bool.and_eq_true, List.all_eq_true, List.any_eq_true, hasStr_iff, Key.eq_str_iff]
  constructor
  · rintro ⟨hall, honly⟩ k
    refine ⟨honly k, ?_⟩
    rintro ⟨f, hf, rfl⟩
    exact hall f hf
  · intro h
    exact ⟨fun f hf => (h _).2 ⟨f, hf, rfl⟩, fun k hk => (h k).1 hk⟩

/-! ## The exceptions of a session -/

/-- `except (ProtocolError, TypeError, ValueError)` -/
def Raised.Caught : Raised F → Prop
  | .protocol _ => True
  | .builtin e => e = .typeError ∨ e.isValueError = true
  | .backend _ => False

@[simp] theorem caught_protocol (e : ProtocolError F) : (Raised.protocol e).Caught := trivial

@[simp] theorem caught_protocolError (code : Code) (text : String) (args : List (Val F))
    (details : List (String × Val F)) : (protocolError code text args details).Caught := trivial

@[simp] theorem caught_builtin {e : Exc} :
    (Raised.builtin e : Raised F).Caught ↔ e = .typeError ∨ e.isValueError = true := Iff.rfl

theorem caught_liftBuiltin {α : Type} {x : Except Exc α} :
    RaisesOnly Raised.Caught (liftBuiltin x : Except (Raised F) α) ↔
      ∀ e, x = .error e → e = .typeError ∨ e.isValueError = true := by
  cases x with
  | ok a => exact iff_of_true (raisesOnly_ok a) nofun
  | error e =>
    show RaisesOnly _ (.error (.builtin e) : Except (Raised F) α) ↔ _
    rw [raisesOnly_error]
    exact ⟨fun h _ he => Except.error.inj he ▸ h, fun h => h e rfl⟩

/-! ## Points -/

/-- `{"type", "t_us", "q_deg"}` -/
def pointFields : List String := ["type", "t_us", "q_deg"]

/-- A tuple of six values as a pose. -/
def poseOf : List F → Option (Pose F)
  | [q₀, q₁, q₂, q₃, q₄, q₅] => some fun
    | .shoulderPan => q₀
    | .shoulderLift => q₁
    | .elbowFlex => q₂
    | .wristFlex => q₃
    | .wristRoll => q₄
    | .gripper => q₅
  | _ => none

theorem poseOf_eq_some {qs : List F} {q : Pose F} : poseOf qs = some q ↔ qs = joints.map q := by
  constructor
  · intro h
    unfold poseOf at h
    split at h
    · cases h
      rfl
    · cases h
  · rintro rfl
    refine congrArg some (funext fun j => ?_)
    cases j <;> rfl

theorem exists_poseOf {qs : List F} (h : qs.length = 6) : ∃ q, poseOf qs = some q := by
  match qs, h with
  | [_, _, _, _, _, _], _ => exact ⟨_, rfl⟩

section Points

variable [PyFloat F]

/-- `tuple(float(value) for value in x)` under `except (TypeError, ValueError)` -/
def readNumbers (x : Val F) : Except (Raised F) (List F) :=
  match (do let items ← x.iter; items.mapM pyFloat) with
  | .ok q => .ok q
  | .error e => if e = .typeError ∨ e.isValueError = true then
      .error (protocolError .schemaInvalid "q_deg must be a numeric array" [] [])
    else .error (.builtin e)

/-- `len(q) == len(JOINTS)` and all values are finite -/
def finitePose (q : List F) : Except (Raised F) (Pose F) :=
  match poseOf q, q.all PyFloat.isFinite with
  | some qDeg, true => .ok qDeg
  | _, _ => .error (protocolError .schemaInvalid "q_deg must contain % finite numbers" [.int 6] [])

/-- `TrajectoryPoint.from_record` -/
def TrajectoryPoint.fromRecord (record : Val F) : Except (Raised F) (TrajectoryPoint F) := do
  let keys ← liftBuiltin record.toSet
  raiseWhen (exactKeys pointFields keys = false)
    (protocolError .schemaInvalid "point must contain type, t_us, and q_deg" [] [])
  let type ← liftBuiltin (record.get "type")
  raiseWhen (Val.eq type (.str (py "point")) = false)
    (protocolError .schemaInvalid "point must contain type, t_us, and q_deg" [] [])
  let tUs ← liftBuiltin (record.getItem "t_us")
  match tUs with
  | .int tUs => do
    let x ← liftBuiltin (record.getItem "q_deg")
    let q ← readNumbers x
    let qDeg ← finitePose q
    .ok ⟨tUs, qDeg⟩
  | _ => .error (protocolError .invalidTime "t_us must be an integer" [] [])

/-! ### What the format says -/

/-- A JSON number. -/
def isNumber : Val F → Bool
  | .int _ | .float _ => true
  | _ => false

/-- The value stands for this finite float. -/
def Coordinate (x : Val F) (q : F) : Prop := x.toFloat = some q ∧ PyFloat.isFinite q = true

/-- The object has a point's fields, its type and this time. -/
structure PointFrame (kvs : Dict F) (tUs : ℤ) : Prop where
  fields : ∀ k, k ∈ kvs.map Prod.fst ↔ ∃ f ∈ pointFields, k = .str (py f)
  type : lookup (py "type") kvs = some (.str (py "point"))
  time : lookup (py "t_us") kvs = some (.int tUs)

/-- A record of the format: exactly the three fields, an integer time and an array of six finite
numbers. -/
def PointRecord (v : Val F) (p : TrajectoryPoint F) : Prop :=
  ∃ kvs xs, v = .dict kvs ∧ PointFrame kvs p.tUs ∧ lookup (py "q_deg") kvs = some (.list xs) ∧
    List.Forall₂ (fun x j => isNumber x = true ∧ Coordinate x (p.qDeg j)) xs joints

/-- Where the items are read in order, none overflows. -/
def NoOverflow (items : List (Val F)) : Prop :=
  ∀ before x after, items = before ++ x :: after → (∀ y ∈ before, ∃ q, y.toFloat = some q) →
    pyFloat x ≠ .error .overflowError

/-- Six items `float` reads as finite. -/
def ReadsAsPose (items : List (Val F)) : Prop :=
  items.length = 6 ∧ ∀ x ∈ items, ∃ q, Coordinate x q

/-- The value is not an array of the field names, and `q_deg` does not overflow. -/
structure PointCaught (v : Val F) : Prop where
  object : ∀ keys, v.toSet = .ok keys → exactKeys pointFields keys = true → ∃ kvs, v = .dict kvs
  overflow : ∀ kvs tUs x items, v = .dict kvs → PointFrame kvs tUs →
    lookup (py "q_deg") kvs = some x → x.iter = .ok items → NoOverflow items

/-- Besides, `q_deg` does not read as a pose without being an array of numbers. -/
structure PointRegular (v : Val F) : Prop extends PointCaught v where
  numbers : ∀ kvs tUs x items, v = .dict kvs → PointFrame kvs tUs →
    lookup (py "q_deg") kvs = some x → x.iter = .ok items → ReadsAsPose items →
      x = .list items ∧ ∀ y ∈ items, isNumber y = true

/-! ### What the reader does -/

variable {v : Val F} {p : TrajectoryPoint F}

theorem finitePose_eq_ok {q : List F} {qDeg : Pose F} : finitePose q = .ok qDeg ↔
    q = joints.map qDeg ∧ ∀ j, PyFloat.isFinite (qDeg j) = true := by
  have hall : q = joints.map qDeg →
      (q.all PyFloat.isFinite = true ↔ ∀ j, PyFloat.isFinite (qDeg j) = true) := by
    rintro rfl
    simp
  unfold finitePose
  split
  · rename_i hpose hfinite
    rw [Except.ok.injEq, ← Option.some.injEq, ← hpose, poseOf_eq_some]
    exact ⟨fun h => ⟨h, (hall h).1 hfinite⟩, And.left⟩
  · rename_i hnot
    refine iff_of_false nofun fun ⟨h, hfinite⟩ => ?_
    exact hnot qDeg (poseOf_eq_some.2 h) ((hall h).2 hfinite)

theorem caught_finitePose (q : List F) : RaisesOnly Raised.Caught (finitePose q) := by
  unfold finitePose
  split
  · exact raisesOnly_ok _
  · exact raisesOnly_error.2 trivial

theorem readNumbers_eq_ok {x : Val F} {q : List F} : readNumbers x = .ok q ↔
    ∃ items, x.iter = .ok items ∧ List.Forall₂ (fun y r => y.toFloat = some r) items q := by
  have hread : readNumbers x = .ok q ↔ (do let items ← x.iter; items.mapM pyFloat) = .ok q := by
    unfold readNumbers
    split
    · rename_i h
      rw [h, Except.ok.injEq, Except.ok.injEq]
    · rename_i h
      rw [h]
      split_ifs <;> simp
  rw [hread, bind_eq_ok]
  simp only [mapM_eq_ok, pyFloat_eq_ok]

omit [PyFloat F] in
theorem iter_raises {x : Val F} {e : Exc} (h : x.iter = .error e) : e = .typeError := by
  unfold Val.iter at h
  split at h <;> cases h
  rfl

/-- What reading the numbers lets through is an overflow. -/
theorem caught_readNumbers {x : Val F} : RaisesOnly Raised.Caught (readNumbers x) ↔
    ∀ items, x.iter = .ok items → NoOverflow items := by
  constructor
  · rintro h items hitems before y after rfl hbefore hy
    have hraise : (do let items ← x.iter; items.mapM pyFloat) = .error Exc.overflowError := by
      rw [bind_eq_error]
      refine .inr ⟨_, hitems, mapM_eq_error.2 ⟨before, y, after, rfl, fun z hz => ?_, hy⟩⟩
      obtain ⟨q, hq⟩ := hbefore z hz
      exact ⟨q, pyFloat_eq_ok.2 hq⟩
    have hread : readNumbers x = .error (.builtin .overflowError) := by
      unfold readNumbers
      rw [hraise]
      rfl
    have hcaught := h _ hread
    simp [Exc.isValueError] at hcaught
  · intro h e he
    unfold readNumbers at he
    split at he
    · cases he
    · rename_i exc hexc
      split_ifs at he with hkind
      · cases he
        trivial
      · exfalso
        obtain hiter | ⟨items, hitems, hmap⟩ := bind_eq_error.1 hexc
        · exact hkind (.inl (iter_raises hiter))
        · obtain ⟨before, y, after, hsplit, hbefore, hy⟩ := mapM_eq_error.1 hmap
          refine h items hitems before y after hsplit (fun z hz => ?_)
            ((pyFloat_raises hy).resolve_right hkind ▸ hy)
          obtain ⟨q, hq⟩ := hbefore z hz
          exact ⟨q, pyFloat_eq_ok.1 hq⟩

theorem toSet_raises {e : Exc} (h : v.toSet = .error e) : e = .typeError := by
  unfold Val.toSet at h
  split at h
  · cases h
  · obtain h | ⟨items, -, h⟩ := bind_eq_error.1 h
    · exact iter_raises h
    · unfold orRaise at h
      split at h <;> cases h
      rfl

/-! The branches of `from_record`, one by one. -/

theorem fromRecord_wrongKeys {keys : List (Key F)} (hset : v.toSet = .ok keys)
    (hkeys : exactKeys pointFields keys = false) : TrajectoryPoint.fromRecord v =
      .error (protocolError .schemaInvalid "point must contain type, t_us, and q_deg" [] []) := by
  simp [TrajectoryPoint.fromRecord, hset, hkeys, liftBuiltin, bind, Except.bind, raiseWhen]

theorem fromRecord_noGet {keys : List (Key F)} (hset : v.toSet = .ok keys)
    (hkeys : exactKeys pointFields keys = true) (hdict : ∀ kvs, v ≠ .dict kvs) :
    TrajectoryPoint.fromRecord v = .error (.builtin .attributeError) := by
  have hget : v.get "type" = .error .attributeError := by
    cases v with
    | dict kvs => exact absurd rfl (hdict kvs)
    | _ => rfl
  simp [TrajectoryPoint.fromRecord, hset, hkeys, hget, liftBuiltin, bind, Except.bind, raiseWhen]

section Object

variable {kvs : Dict F} (hkeys : exactKeys pointFields (kvs.map Prod.fst) = true)
include hkeys

theorem fromRecord_wrongType {t : Val F} (ht : lookup (py "type") kvs = some t)
    (hne : t ≠ .str (py "point")) : TrajectoryPoint.fromRecord (.dict kvs) =
      .error (protocolError .schemaInvalid "point must contain type, t_us, and q_deg" [] []) := by
  have heq : Val.eq t (.str (py "point")) = false :=
    Bool.eq_false_iff.2 fun h => hne (eq_str_of_eq h)
  simp [TrajectoryPoint.fromRecord, Val.toSet_dict, Val.get, hkeys, ht, heq, liftBuiltin, bind,
    Except.bind, raiseWhen]

variable (ht : lookup (py "type") kvs = some (.str (py "point")))
include ht

theorem fromRecord_wrongTime {n : Val F} (hn : lookup (py "t_us") kvs = some n)
    (hne : ∀ tUs, n ≠ .int tUs) : TrajectoryPoint.fromRecord (.dict kvs) =
      .error (protocolError .invalidTime "t_us must be an integer" [] []) := by
  have hself : Val.eq (.str (py "point") : Val F) (.str (py "point")) = true := beq_self_eq_true _
  cases n with
  | int tUs => exact absurd rfl (hne tUs)
  | _ => simp [TrajectoryPoint.fromRecord, Val.toSet_dict, Val.get, Val.getItem, hkeys, ht, hn,
      hself, liftBuiltin, bind, Except.bind, raiseWhen]

theorem fromRecord_numbers {tUs : ℤ} {x : Val F} (hn : lookup (py "t_us") kvs = some (.int tUs))
    (hx : lookup (py "q_deg") kvs = some x) : TrajectoryPoint.fromRecord (.dict kvs) = (do
      let q ← readNumbers x
      let qDeg ← finitePose q
      .ok ⟨tUs, qDeg⟩) := by
  have hself : Val.eq (.str (py "point") : Val F) (.str (py "point")) = true := beq_self_eq_true _
  simp [TrajectoryPoint.fromRecord, Val.toSet_dict, Val.get, Val.getItem, hkeys, ht, hn, hx, hself,
    liftBuiltin, bind, Except.bind, raiseWhen]

end Object

/-- How `from_record` ends: at the numbers of a point, for want of `get`, or before with an
exception that is caught. -/
theorem fromRecord_cases (v : Val F) :
    (∃ kvs tUs x, v = .dict kvs ∧ PointFrame kvs tUs ∧ lookup (py "q_deg") kvs = some x ∧
      TrajectoryPoint.fromRecord v = do
        let q ← readNumbers x
        let qDeg ← finitePose q
        .ok ⟨tUs, qDeg⟩) ∨
    (∃ keys, v.toSet = .ok keys ∧ exactKeys pointFields keys = true ∧ (∀ kvs, v ≠ .dict kvs) ∧
      TrajectoryPoint.fromRecord v = .error (.builtin .attributeError)) ∨
    (¬∃ kvs tUs, v = .dict kvs ∧ PointFrame kvs tUs) ∧
      (∀ keys, v.toSet = .ok keys → exactKeys pointFields keys = true → ∃ kvs, v = .dict kvs) ∧
      ∃ e : Raised F, e.Caught ∧ TrajectoryPoint.fromRecord v = .error e := by
  cases hset : v.toSet with
  | error e =>
    obtain rfl := toSet_raises hset
    refine .inr (.inr ⟨?_, nofun, .builtin .typeError, .inl rfl, ?_⟩)
    · rintro ⟨kvs, tUs, rfl, -⟩
      rw [Val.toSet_dict] at hset
      cases hset
    · unfold TrajectoryPoint.fromRecord
      rw [hset]
      rfl
  | ok keys =>
    by_cases hkeys : exactKeys pointFields keys = true
    · by_cases hdict : ∃ kvs, v = .dict kvs
      · obtain ⟨kvs, rfl⟩ := hdict
        rw [Val.toSet_dict] at hset
        cases hset
        have hfields := exactKeys_eq_true.1 hkeys
        have hhas : ∀ f ∈ pointFields, ∃ w, lookup (py f) kvs = some w :=
          fun f hf => exists_lookup ((hfields _).2 ⟨f, hf, rfl⟩)
        obtain ⟨t, ht⟩ := hhas "type" (by decide)
        obtain ⟨n, hn⟩ := hhas "t_us" (by decide)
        obtain ⟨x, hx⟩ := hhas "q_deg" (by decide)
        by_cases htype : t = .str (py "point")
        · subst htype
          by_cases hint : ∃ tUs, n = .int tUs
          · obtain ⟨tUs, rfl⟩ := hint
            exact .inl ⟨kvs, tUs, x, rfl, ⟨hfields, ht, hn⟩, hx, fromRecord_numbers hkeys ht hn hx⟩
          · refine .inr (.inr ⟨?_, fun _ _ _ => ⟨kvs, rfl⟩, _, ?_,
              fromRecord_wrongTime hkeys ht hn fun tUs h => hint ⟨tUs, h⟩⟩)
            · rintro ⟨_, tUs, h, hframe⟩
              cases h
              exact hint ⟨tUs, Option.some.inj (hn.symm.trans hframe.time)⟩
            · exact caught_protocolError _ _ _ _
        · refine .inr (.inr ⟨?_, fun _ _ _ => ⟨kvs, rfl⟩, _, ?_,
            fromRecord_wrongType hkeys ht htype⟩)
          · rintro ⟨_, tUs, h, hframe⟩
            cases h
            exact htype (Option.some.inj (ht.symm.trans hframe.type))
          · exact caught_protocolError _ _ _ _
      · have hne : ∀ kvs, v ≠ .dict kvs := fun kvs h => hdict ⟨kvs, h⟩
        exact .inr (.inl ⟨keys, rfl, hkeys, hne, fromRecord_noGet hset hkeys hne⟩)
    · refine .inr (.inr ⟨?_, fun keys' h h' => ?_, _, ?_,
        fromRecord_wrongKeys hset (Bool.eq_false_iff.2 hkeys)⟩)
      · rintro ⟨kvs, tUs, rfl, hframe⟩
        rw [Val.toSet_dict] at hset
        cases hset
        exact hkeys (exactKeys_eq_true.2 hframe.fields)
      · cases h
        exact absurd h' hkeys
      · exact caught_protocolError _ _ _ _

/-- What `from_record` accepts: anything iterable that `float` reads as a pose. -/
theorem fromRecord_eq_ok : TrajectoryPoint.fromRecord v = .ok p ↔
    ∃ kvs x items, v = .dict kvs ∧ PointFrame kvs p.tUs ∧ lookup (py "q_deg") kvs = some x ∧
      x.iter = .ok items ∧ List.Forall₂ (fun y j => Coordinate y (p.qDeg j)) items joints := by
  have hnumbers : ∀ x tUs, (do
      let q ← readNumbers x
      let qDeg ← finitePose q
      .ok ⟨tUs, qDeg⟩ : Except (Raised F) (TrajectoryPoint F)) = .ok p ↔
      tUs = p.tUs ∧ ∃ items, x.iter = .ok items ∧
        List.Forall₂ (fun y j => Coordinate y (p.qDeg j)) items joints := by
    intro x tUs
    simp only [bind_eq_ok, readNumbers_eq_ok, finitePose_eq_ok, Except.ok.injEq]
    constructor
    · rintro ⟨_, ⟨items, hitems, hread⟩, qDeg, ⟨rfl, hfinite⟩, rfl⟩
      refine ⟨rfl, items, hitems, (List.forall₂_map_right_iff.1 hread).imp fun y j hy => ?_⟩
      exact ⟨hy, hfinite j⟩
    · rintro ⟨rfl, items, hitems, hread⟩
      refine ⟨joints.map p.qDeg, ⟨items, hitems, ?_⟩, p.qDeg, ⟨rfl, fun j => ?_⟩, rfl⟩
      · exact List.forall₂_map_right_iff.2 (hread.imp fun _ _ hy => hy.1)
      · obtain ⟨y, -, hy⟩ := hread.exists_of_mem_right (mem_joints j)
        exact hy.2
  obtain ⟨kvs, tUs, x, rfl, hframe, hx, hrun⟩ | ⟨-, -, -, hdict, hrun⟩ | ⟨hframe, -, e, -, hrun⟩ :=
    fromRecord_cases v
  · rw [hrun, hnumbers]
    constructor
    · rintro ⟨rfl, items, hitems, hread⟩
      exact ⟨kvs, x, items, rfl, hframe, hx, hitems, hread⟩
    · rintro ⟨_, x', items, h, hframe', hx', hitems, hread⟩
      cases h
      rw [hx] at hx'
      cases hx'
      have htime := hframe.time.symm.trans hframe'.time
      exact ⟨Val.int.inj (Option.some.inj htime), items, hitems, hread⟩
  · rw [hrun]
    refine iff_of_false (fun h => by cases h) ?_
    rintro ⟨kvs, -, -, rfl, -⟩
    exact hdict kvs rfl
  · rw [hrun]
    refine iff_of_false (fun h => by cases h) ?_
    rintro ⟨kvs, -, -, rfl, hframe', -⟩
    exact hframe ⟨kvs, p.tUs, rfl, hframe'⟩

/-- What `from_record` raises is caught unless it looks for `get` or overflows. -/
theorem caught_fromRecord :
    RaisesOnly Raised.Caught (TrajectoryPoint.fromRecord v) ↔ PointCaught v := by
  obtain ⟨kvs, tUs, x, rfl, hframe, hx, hrun⟩ | ⟨keys, hset, hkeys, hdict, hrun⟩ |
    ⟨hframe, hobject, e, he, hrun⟩ := fromRecord_cases v
  · have hrest : ∀ q, RaisesOnly Raised.Caught
        (do let qDeg ← finitePose q; .ok ⟨tUs, qDeg⟩ : Except (Raised F) (TrajectoryPoint F)) :=
      fun q => raisesOnly_bind_ok.2 (caught_finitePose q)
    rw [hrun, raisesOnly_bind, and_iff_left fun q _ => hrest q, caught_readNumbers]
    constructor
    · intro h
      refine ⟨fun _ _ _ => ⟨kvs, rfl⟩, ?_⟩
      intro _ _ x' items heq _ hx' hitems
      cases heq
      rw [hx] at hx'
      cases hx'
      exact h items hitems
    · intro h items hitems
      exact h.overflow kvs tUs x items rfl hframe hx hitems
  · rw [hrun, raisesOnly_error]
    refine iff_of_false (by simp [Exc.isValueError]) fun h => ?_
    obtain ⟨kvs, rfl⟩ := h.object keys hset hkeys
    exact hdict kvs rfl
  · rw [hrun, raisesOnly_error]
    refine iff_of_true he ⟨hobject, ?_⟩
    rintro kvs tUs - - rfl hframe' - -
    exact absurd ⟨kvs, tUs, rfl, hframe'⟩ hframe

theorem exists_coordinates {items : List (Val F)} (h : ReadsAsPose items) :
    ∃ q : Pose F, List.Forall₂ (fun y j => Coordinate y (q j)) items joints := by
  obtain ⟨hlen, hread⟩ := h
  obtain ⟨qs, hqs⟩ := List.Forall₂.of_forall_exists hread
  obtain ⟨q, hq⟩ := exists_poseOf (hqs.length_eq.symm.trans hlen)
  obtain rfl := poseOf_eq_some.1 hq
  exact ⟨q, List.forall₂_map_right_iff.1 hqs⟩

theorem readsAsPose_of_coordinates {items : List (Val F)} {q : Pose F}
    (h : List.Forall₂ (fun y j => Coordinate y (q j)) items joints) : ReadsAsPose items := by
  refine ⟨h.length_eq, fun y hy => ?_⟩
  obtain ⟨j, -, hj⟩ := h.exists_of_mem_left hy
  exact ⟨q j, hj⟩

/-- `from_record` returns a point on exactly the records of the format, and raises only what the
session catches, exactly on the regular values. -/
theorem fromRecord_iff (v : Val F) :
    (∀ p, TrajectoryPoint.fromRecord v = .ok p ↔ PointRecord v p) ∧
      RaisesOnly Raised.Caught (TrajectoryPoint.fromRecord v) ↔ PointRegular v := by
  constructor
  · rintro ⟨hok, hcaught⟩
    refine ⟨caught_fromRecord.1 hcaught, ?_⟩
    intro kvs tUs x items hv hframe hx hitems hpose
    obtain ⟨q, hq⟩ := exists_coordinates hpose
    obtain ⟨_, xs, rfl, -, hxs, hnumbers⟩ := (hok ⟨tUs, q⟩).1
      (fromRecord_eq_ok.2 ⟨kvs, x, items, hv, hframe, hx, hitems, hq⟩)
    cases hv
    rw [hx] at hxs
    cases hxs
    cases hitems
    refine ⟨rfl, fun y hy => ?_⟩
    obtain ⟨j, -, hj⟩ := hnumbers.exists_of_mem_left hy
    exact hj.1
  · intro h
    refine ⟨fun p => ?_, caught_fromRecord.2 h.toPointCaught⟩
    rw [fromRecord_eq_ok]
    constructor
    · rintro ⟨kvs, x, items, rfl, hframe, hx, hitems, hread⟩
      obtain ⟨rfl, hnumbers⟩ := h.numbers kvs p.tUs x items rfl hframe hx hitems
        (readsAsPose_of_coordinates hread)
      refine ⟨kvs, items, rfl, hframe, hx, ?_⟩
      exact ((List.forall₂_and_left _ _).2 ⟨hnumbers, hread⟩).imp fun _ _ hy => hy
    · rintro ⟨kvs, xs, rfl, hframe, hx, hread⟩
      exact ⟨kvs, .list xs, xs, rfl, hframe, hx, rfl, hread.imp fun _ _ hy => hy.2⟩

end Points

/-! ## Headers -/

/-- The fields of a header. -/
def headerFields : List String :=
  ["type", "format", "version", "program_id", "model", "joints", "coordinate_mode",
    "interpolation"]

/-- `coordinate_mode in COORDINATE_MODES` -/
def CoordinateMode.ofStr? (s : Str) : Option CoordinateMode :=
  if s = py "absolute_deg" then some .absoluteDeg
  else if s = py "relative_deg" then some .relativeDeg
  else none

section Headers

variable [PyFloat F]

/-- `record["k"] != v` -/
def fieldDiffers (record : Val F) (k : String) (v : Val F) : Except (Raised F) Bool := do
  let w ← liftBuiltin (record.getItem k)
  .ok (!Val.eq w v)

/-- `set(record) != required`, with the names that differ -/
def checkHeaderKeys (record : Val F) : Except (Raised F) Unit := do
  let keys ← liftBuiltin record.toSet
  if exactKeys headerFields keys = true then .ok ()
  else do
    let missing := headerFields.filter fun k => !hasStr k keys
    let unexpected ← liftBuiltin <| sortedKeys <|
      keys.filter fun k => !headerFields.any fun f => Key.eq (.str (py f)) k
    .error (protocolError .schemaInvalid "header fields don't match the v1 schema" []
      [("missing", .list ((sortedSet (missing.map py)).map .str)),
        ("unexpected", .list (unexpected.map Key.toVal))])

/-- The first checks of `ProgramHeader.from_record`: the names of the fields and the fields with one
value each. -/
def checkHeader (record : Val F) : Except (Raised F) Unit := do
  checkHeaderKeys record
  let type ← fieldDiffers record "type" (.str (py "header"))
  raiseWhen (type = true)
    (protocolError .schemaInvalid "first record must be a header" [] [])
  let format ← fieldDiffers record "format" (.str (py "so101-joint-trajectory"))
  let version ← fieldDiffers record "version" (.int 1)
  raiseWhen (format = true ∨ version = true)
    (protocolError .versionUnsupported "unsupported trajectory format/version" [] [])
  let model ← fieldDiffers record "model" (.str (py "so101-follower"))
  raiseWhen (model = true)
    (protocolError .modelMismatch "program isn't for an SO-101 follower" [] [])
  let value ← liftBuiltin (record.getItem "joints")
  let items ← liftBuiltin value.iter
  raiseWhen (Val.eqs items (joints.map fun j => .str (py j.name)) = false)
    (protocolError .jointSetMismatch
      "joint order must exactly match the server's canonical joint order" []
      [("expected", .list (joints.map fun j => .str (py j.name)))])

variable [PyText F]

/-- The last checks of `ProgramHeader.from_record`, behind the coordinate mode. -/
def finishHeader (record : Val F) (coordinateMode : CoordinateMode) :
    Except (Raised F) ProgramHeader := do
  let interpolation ← fieldDiffers record "interpolation" (.str (py "quintic_stop"))
  raiseWhen (interpolation = true)
    (protocolError .schemaInvalid "v1 only supports quintic_stop interpolation" [] [])
  let value ← liftBuiltin (record.getItem "program_id")
  let programId ← liftBuiltin value.pyStr
  raiseWhen (programId = [] ∨ 128 < programId.length)
    (protocolError .schemaInvalid "program_id must contain 1..128 characters" [] [])
  .ok { programId, coordinateMode }

/-- `ProgramHeader.from_record` -/
def ProgramHeader.fromRecord (record : Val F) : Except (Raised F) ProgramHeader := do
  checkHeader record
  let value ← liftBuiltin (record.getItem "coordinate_mode")
  let mode ← liftBuiltin value.pyStr
  match CoordinateMode.ofStr? mode with
  | none => .error (protocolError .schemaInvalid "unsupported coordinate_mode: %" [.str mode] [])
  | some coordinateMode => finishHeader record coordinateMode

/-- `str` of the value raises what a session catches. -/
def TextRegular (v : Val F) : Prop :=
  ∀ e, v.pyStr = .error e → e = .typeError ∨ e.isValueError = true

/-- The two texts of a header, where the reader comes to them. -/
structure HeaderRegular (kvs : Dict F) : Prop where
  coordinateMode : checkHeader (.dict kvs) = .ok () → TextRegular (field "coordinate_mode" kvs)
  programId : ∀ mode coordinateMode, checkHeader (.dict kvs) = .ok () →
    (field "coordinate_mode" kvs).pyStr = .ok mode →
    CoordinateMode.ofStr? mode = some coordinateMode →
    field "interpolation" kvs = .str (py "quintic_stop") → TextRegular (field "program_id" kvs)

omit [PyFloat F] in
theorem caught_pyStr {v : Val F} :
    RaisesOnly Raised.Caught (liftBuiltin v.pyStr : Except (Raised F) Str) ↔ TextRegular v :=
  caught_liftBuiltin

omit [PyFloat F] [PyText F] in
theorem getItem_field {kvs : Dict F} {k : String} (h : Key.str (py k) ∈ kvs.map Prod.fst) :
    (Val.dict kvs).getItem k = .ok (field k kvs) := by
  obtain ⟨v, hv⟩ := exists_lookup h
  rw [getItem_of_lookup hv, field, hv]
  rfl

omit [PyText F] in
theorem fieldDiffers_field {kvs : Dict F} {k : String} (h : Key.str (py k) ∈ kvs.map Prod.fst)
    (v : Val F) : fieldDiffers (.dict kvs) k v = .ok (!Val.eq (field k kvs) v) := by
  unfold fieldDiffers
  rw [getItem_field h]
  rfl

omit [PyText F] in
theorem checkHeaderKeys_eq_ok {kvs : Dict F} : checkHeaderKeys (.dict kvs) = .ok () ↔
    exactKeys headerFields (kvs.map Prod.fst) = true := by
  unfold checkHeaderKeys
  rw [Val.toSet_dict]
  show (if exactKeys headerFields (kvs.map Prod.fst) = true then _ else _) = _ ↔ _
  split_ifs with h
  · simp [h]
  · refine iff_of_false (fun hok => ?_) h
    obtain ⟨_, -, hok⟩ := bind_eq_ok.1 hok
    cases hok

omit [PyText F] in
theorem keys_of_checkHeader {kvs : Dict F} (h : checkHeader (.dict kvs) = .ok ()) :
    ∀ f ∈ headerFields, Key.str (py f) ∈ kvs.map Prod.fst := by
  unfold checkHeader at h
  obtain ⟨_, hkeys, -⟩ := bind_eq_ok.1 h
  exact fun f hf => (exactKeys_eq_true.1 (checkHeaderKeys_eq_ok.1 hkeys) _).2 ⟨f, hf, rfl⟩

omit [PyText F] in
theorem sortedKeys_raises {ks : List (Key F)} {e : Exc} (h : sortedKeys ks = .error e) :
    e = .typeError := by
  unfold sortedKeys at h
  split_ifs at h
  cases h
  rfl

omit [PyText F] in
theorem caught_checkHeaderKeys (kvs : Dict F) :
    RaisesOnly Raised.Caught (checkHeaderKeys (.dict kvs)) := by
  unfold checkHeaderKeys
  rw [Val.toSet_dict]
  show RaisesOnly _ (if exactKeys headerFields (kvs.map Prod.fst) = true then _ else _)
  split_ifs
  · exact raisesOnly_ok _
  · rw [raisesOnly_bind]
    refine ⟨caught_liftBuiltin.2 fun e he => .inl (sortedKeys_raises he), fun _ _ => ?_⟩
    exact raisesOnly_error.2 trivial

omit [PyText F] in
/-- The first checks raise what a session catches. -/
theorem caught_checkHeader (kvs : Dict F) :
    RaisesOnly Raised.Caught (checkHeader (.dict kvs)) := by
  unfold checkHeader
  rw [raisesOnly_bind_of (caught_checkHeaderKeys kvs)]
  intro _ hkeys
  have hhas : ∀ f ∈ headerFields, Key.str (py f) ∈ kvs.map Prod.fst :=
    fun f hf => (exactKeys_eq_true.1 (checkHeaderKeys_eq_ok.1 hkeys) _).2 ⟨f, hf, rfl⟩
  rw [fieldDiffers_field (hhas "type" (by decide)), fieldDiffers_field (hhas "format" (by decide)),
    fieldDiffers_field (hhas "version" (by decide)), fieldDiffers_field (hhas "model" (by decide)),
    getItem_field (hhas "joints" (by decide))]
  simp only [raisesOnly_bind, raisesOnly_raiseWhen, caught_protocolError, raisesOnly_ok, true_and,
    implies_true, and_true]
  intro _ _ _ _ _ _ _ _ _ _ _ _ _ _
  exact ⟨raisesOnly_ok _, fun _ _ => caught_liftBuiltin.2 fun e he => .inl (iter_raises he)⟩

theorem caught_finishHeader {kvs : Dict F} (hcheck : checkHeader (.dict kvs) = .ok ())
    (coordinateMode : CoordinateMode) :
    RaisesOnly Raised.Caught (finishHeader (.dict kvs) coordinateMode) ↔
      (field "interpolation" kvs = .str (py "quintic_stop") →
        TextRegular (field "program_id" kvs)) := by
  have hhas := keys_of_checkHeader hcheck
  have heq : Val.eq (field "interpolation" kvs) (.str (py "quintic_stop")) = true ↔
      field "interpolation" kvs = .str (py "quintic_stop") :=
    ⟨eq_str_of_eq, fun h => by rw [h]; exact beq_self_eq_true _⟩
  unfold finishHeader
  rw [fieldDiffers_field (hhas "interpolation" (by decide)),
    getItem_field (hhas "program_id" (by decide))]
  show RaisesOnly _ (raiseWhen ((!Val.eq _ _) = true) _ >>= fun _ =>
    liftBuiltin (Val.pyStr _) >>= _) ↔ _
  rw [raisesOnly_bind_of (raisesOnly_raiseWhen.2 fun _ => trivial), forall_unit, raiseWhen_eq_ok,
    Bool.not_eq_true', Bool.not_eq_false, heq, raisesOnly_bind, caught_pyStr]
  refine imp_congr_right fun _ => and_iff_left fun programId _ => ?_
  exact raisesOnly_bind.2 ⟨raisesOnly_raiseWhen.2 fun _ => trivial, fun _ _ => raisesOnly_ok _⟩

/-- Reading a header raises what a session catches where its two texts do. -/
theorem caught_headerFromRecord (kvs : Dict F) :
    RaisesOnly Raised.Caught (ProgramHeader.fromRecord (.dict kvs)) ↔ HeaderRegular kvs := by
  unfold ProgramHeader.fromRecord
  rw [raisesOnly_bind_of (caught_checkHeader kvs), forall_unit]
  by_cases hcheck : checkHeader (.dict kvs) = .ok ()
  · rw [getItem_field (keys_of_checkHeader hcheck "coordinate_mode" (by decide))]
    show (_ → RaisesOnly _ (liftBuiltin (Val.pyStr _) >>= _)) ↔ _
    rw [raisesOnly_bind, caught_pyStr]
    constructor
    · intro h
      refine ⟨fun hcheck => (h hcheck).1, fun mode coordinateMode _ hmode hof hinterp => ?_⟩
      have hfinish := (h hcheck).2 mode (liftBuiltin_eq_ok.2 hmode)
      rw [hof] at hfinish
      exact (caught_finishHeader hcheck coordinateMode).1 hfinish hinterp
    · intro h _
      refine ⟨h.coordinateMode hcheck, fun mode hmode => ?_⟩
      cases hof : CoordinateMode.ofStr? mode with
      | none => exact raisesOnly_error.2 trivial
      | some coordinateMode =>
        exact (caught_finishHeader hcheck coordinateMode).2
          (h.programId mode coordinateMode hcheck (liftBuiltin_eq_ok.1 hmode) hof)
  · exact iff_of_true (fun h => absurd h hcheck)
      ⟨fun h => absurd h hcheck, fun _ _ h => absurd h hcheck⟩

end Headers

/-! ### A point whose coordinates are a string -/

/-- `{"type": "point", "t_us": 0, "q_deg": "123456"}` -/
def digitsRecord : Val ℚ :=
  dictOf [("type", .str (py "point")), ("t_us", .int 0), ("q_deg", .str (py "123456"))]

/-- `["type", "t_us", "q_deg"]` -/
def namesRecord : Val ℚ := .list (pointFields.map fun f => .str (py f))

/-- Six digits in a string are read as a pose, and the names of the fields raise an
`AttributeError`. -/
theorem fromRecord_counterexample :
    (∃ p, TrajectoryPoint.fromRecord digitsRecord = .ok p ∧ ¬PointRecord digitsRecord p) ∧
      ¬RaisesOnly Raised.Caught (TrajectoryPoint.fromRecord namesRecord) := by
  constructor
  · have hok : (TrajectoryPoint.fromRecord digitsRecord).isOk = true := by decide +kernel
    obtain ⟨p, hp⟩ := exists_of_isOk hok
    refine ⟨p, hp, ?_⟩
    rintro ⟨kvs, xs, h, -, hxs, -⟩
    cases h
    cases hxs
  · intro h
    have hcaught := caught_fromRecord.1 h
    obtain ⟨kvs, hkvs⟩ := hcaught.object (pointFields.map fun f => .str (py f)) rfl (by decide +kernel)
    cases hkvs

end RemoteRobot.Stream
