import Mathlib.Data.List.Sort
import Mathlib.Data.List.Dedup
import Mathlib.Data.Rat.Floor
import Mathlib.Algebra.Order.Field.Rat

/-!
# Plain Python values

The data a Python program gets from JSON, TOML or CBOR: `None`, booleans, unbounded integers,
floats, strings, byte strings, lists, tuples and dictionaries.  Strings are lists of code points,
since a Python string may hold unpaired surrogates and a Lean `String` may not.  Floats are a type
parameter `F` with the operations of `PyFloat`; the instance for `ℚ` is exact arithmetic.

`Val.eq` is `==`, which compares numbers across types (`2 == 2.0 == True + 1`) and dictionaries
without their order.  `Val.Reads v w` says that `w` is `v` after a serialisation round trip: the
same data with tuples turned into lists and dictionary entries possibly reordered.
-/

namespace Py

/-! ## Strings -/

/-- A `str`: its code points. -/
abbrev Str := List ℕ

instance : LawfulBEq Str := inferInstanceAs (LawfulBEq (List ℕ))

/-- A `bytes`. -/
abbrev Bytes := List UInt8

/-- A string literal of the source; they are all ASCII, so its bytes are its code points. -/
def py (s : String) : Str := s.toByteArray.data.toList.map UInt8.toNat

@[simp] theorem py_inj {s t : String} : py s = py t ↔ s = t := by
  unfold py
  rw [List.map_inj_right (fun a b h => UInt8.toNat_inj.1 h), Array.toList_inj]
  exact ByteArray.ext_iff.symm.trans String.toByteArray_inj

/-- The code points for which `str.isspace` holds; `str.strip` removes the same ones. -/
def isSpace (c : ℕ) : Bool :=
  (9 ≤ c && c ≤ 13) || (28 ≤ c && c ≤ 32) || c == 0x85 || c == 0xA0 || c == 0x1680 ||
    (0x2000 ≤ c && c ≤ 0x200A) || c == 0x2028 || c == 0x2029 || c == 0x202F || c == 0x205F ||
    c == 0x3000

/-- `str.strip()` -/
def strip (s : Str) : Str := ((s.dropWhile isSpace).reverse.dropWhile isSpace).reverse

/-- Surrogate code points, which UTF-8 cannot encode. -/
def isSurrogate (c : ℕ) : Bool := 0xD800 ≤ c && c ≤ 0xDFFF

/-- The strings `str.encode("utf-8")` accepts. -/
def encodable (s : Str) : Bool := s.all fun c => !isSurrogate c

/-- `str(n)` of a natural number -/
def natStr (n : ℕ) : Str := (Nat.toDigits 10 n).map Char.toNat

theorem natStr_injective : Function.Injective natStr := by
  intro m n h
  have hchars : Nat.toDigits 10 m = Nat.toDigits 10 n :=
    List.map_injective_iff.2 (fun a b hab => Char.ext (UInt32.toNat_inj.1 hab)) h
  rw [← Nat.ofDigitChars_ten_toDigits (n := m), hchars, Nat.ofDigitChars_ten_toDigits]

/-- The characters of a numeral are digits. -/
theorem digit_of_mem_natStr {n c : ℕ} (h : c ∈ natStr n) : 48 ≤ c ∧ c ≤ 57 := by
  obtain ⟨d, hd, rfl⟩ := List.mem_map.1 h
  have hdigit := Nat.isDigit_of_mem_toDigits (by omega) (by omega) hd
  rwa [Char.isDigit_iff_toNat] at hdigit

/-- `s.split(sep)` for a one-character separator. -/
def split (sep : ℕ) : Str → List Str
  | [] => [[]]
  | c :: s =>
    if c = sep then [] :: split sep s
    else match split sep s with
      | [] => [[c]]
      | w :: ws => (c :: w) :: ws

/-- The order of `str`: lexicographic by code point. -/
def strLe : Str → Str → Bool
  | [], _ => true
  | _ :: _, [] => false
  | a :: s, b :: t => a < b || (a == b && strLe s t)

/-- `sorted(set(names))` -/
def sortedSet (names : List Str) : List Str :=
  names.dedup.insertionSort fun a b => strLe a b = true

@[simp] theorem mem_sortedSet {s : Str} {names : List Str} : s ∈ sortedSet names ↔ s ∈ names := by
  unfold sortedSet
  rw [List.mem_insertionSort, List.mem_dedup]

theorem nodup_sortedSet (names : List Str) : (sortedSet names).Nodup :=
  (List.perm_insertionSort _ _).nodup_iff.2 (List.nodup_dedup names)

/-! ## Exceptions -/

/-- The built-in exception classes. -/
inductive Exc where
  | typeError | valueError | unicodeEncodeError | keyError | indexError | attributeError
  | overflowError | zeroDivisionError | recursionError | stopIteration
  deriving DecidableEq, Repr

/-- `isinstance(exc, ValueError)` -/
def Exc.isValueError : Exc → Bool
  | .valueError | .unicodeEncodeError => true
  | _ => false

/-! ## Floats -/

/-- The float operations the program uses.  `none` and errors are the exceptions of `float(x)` and
of the divisions. -/
class PyFloat (F : Type) where
  /-- `float(n)`, which overflows on integers beyond the largest double -/
  ofInt : ℤ → Option F
  /-- `float(s)` of a string -/
  ofStr : Str → Option F
  /-- `float(b)` of a byte string -/
  ofBytes : Bytes → Option F
  /-- `a / b` of two integers -/
  truediv : ℤ → ℤ → Except Exc F
  /-- a float literal of the source -/
  lit : ℚ → F
  add : F → F → F
  sub : F → F → F
  mul : F → F → F
  /-- `x / y` of two floats -/
  div : F → F → Except Exc F
  abs : F → F
  lt : F → F → Bool
  le : F → F → Bool
  eq : F → F → Bool
  /-- `x == n` -/
  eqInt : F → ℤ → Bool
  isFinite : F → Bool
  /-- `numpy.maximum` -/
  max : F → F → F

/-- A finite float equals itself. -/
class LawfulFloat (F : Type) [PyFloat F] : Prop where
  eq_self : ∀ x : F, PyFloat.isFinite x = true → PyFloat.eq x x = true

/-- The digits of a plain decimal numeral, with their count. -/
def digits : Str → Option (ℕ × ℕ)
  | [] => some (0, 0)
  | c :: s => if 48 ≤ c ∧ c ≤ 57 then (digits s).map fun r => ((c - 48) * 10 ^ r.2 + r.1, r.2 + 1)
    else none

/-- The value of a plain decimal numeral such as `-12.5`. -/
def decimal : Str → Option ℚ
  | 45 :: s => (unsigned s).map fun q => -q
  | s => unsigned s
where
  unsigned (s : Str) : Option ℚ :=
    match split 46 s with
    | [w] => if w = [] then none else (digits w).map fun r => (r.1 : ℚ)
    | [w, f] => if w = [] ∧ f = [] then none else
      (digits w).bind fun r => (digits f).map fun d => (r.1 : ℚ) + d.1 / 10 ^ d.2
    | _ => none

/-- Exact rational arithmetic. -/
instance : PyFloat ℚ where
  ofInt n := some n
  ofStr := decimal
  ofBytes b := decimal (b.map UInt8.toNat)
  truediv a b := if b = 0 then .error .zeroDivisionError else .ok (a / b)
  lit := id
  add := (· + ·)
  sub := (· - ·)
  mul := (· * ·)
  div x y := if y = 0 then .error .zeroDivisionError else .ok (x / y)
  abs x := |x|
  lt x y := decide (x < y)
  le x y := decide (x ≤ y)
  eq x y := decide (x = y)
  eqInt x n := decide (x = n)
  isFinite _ := true
  max := Max.max

instance : LawfulFloat ℚ where
  eq_self x _ := decide_eq_true (rfl : x = x)

/-! ## Values -/

/-- A hashable value: what may be the key of a dictionary. -/
inductive Key (F : Type) where
  | none
  | bool (b : Bool)
  | int (n : ℤ)
  | float (x : F)
  | str (s : Str)
  | bytes (b : Bytes)
  | tuple (ks : List (Key F))

/-- A plain value. -/
inductive Val (F : Type) where
  | none
  | bool (b : Bool)
  | int (n : ℤ)
  | float (x : F)
  | str (s : Str)
  | bytes (b : Bytes)
  | list (xs : List (Val F))
  | tuple (xs : List (Val F))
  | dict (kvs : List (Key F × Val F))

/-- The entries of a `dict`. -/
abbrev Dict (F : Type) := List (Key F × Val F)

instance {F : Type} : Inhabited (Val F) := ⟨.none⟩

/-- What Python answers about text and conversions to text, beyond ASCII. -/
class PyText (F : Type) where
  /-- `str.isalpha` of one character -/
  isAlpha : ℕ → Bool
  /-- `str.isalnum` of one character -/
  isAlnum : ℕ → Bool
  isAlnum_ascii : ∀ c < 128, isAlnum c =
    ((48 ≤ c && c ≤ 57) || (65 ≤ c && c ≤ 90) || (97 ≤ c && c ≤ 122))
  not_isSpace_of_isAlnum : ∀ c, isAlnum c = true → isSpace c = false
  /-- `str.casefold` -/
  casefold : Str → Str
  /-- `str(x)` of a value that is no string -/
  strOf : Val F → Str
  /-- what `str(x)` raises for such a value -/
  strError : Val F → Option Exc

/-- The text functions on ASCII; `str` of a container is left empty. -/
instance : PyText ℚ where
  isAlpha c := (65 ≤ c && c ≤ 90) || (97 ≤ c && c ≤ 122)
  isAlnum c := (48 ≤ c && c ≤ 57) || (65 ≤ c && c ≤ 90) || (97 ≤ c && c ≤ 122)
  isAlnum_ascii _ _ := rfl
  not_isSpace_of_isAlnum c h := by
    simp [isSpace] at h ⊢
    omega
  casefold s := s.map fun c => if 65 ≤ c ∧ c ≤ 90 then c + 32 else c
  strOf
    | .none => py "None"
    | .bool true => py "True"
    | .bool false => py "False"
    | .int n => (if n < 0 then [45] else []) ++ (Nat.toDigits 10 n.natAbs).map Char.toNat
    | _ => []
  strError
    | .int n => if 10 ^ 4300 ≤ n.natAbs then some .valueError else none
    | _ => none

variable {F : Type}

/-- `str(x)` where it returns -/
def Val.toStr [PyText F] : Val F → Str
  | .str s => s
  | v => PyText.strOf v

/-- `str(x)`, which refuses integers with too many digits. -/
def Val.pyStr [PyText F] : Val F → Except Exc Str
  | .str s => .ok s
  | v => match PyText.strError v with
    | some e => .error e
    | .none => .ok (PyText.strOf v)

/-- A dictionary with string keys, in the order written. -/
def entries (kvs : List (String × Val F)) : Dict F := kvs.map fun p => (.str (py p.1), p.2)

/-- The entries of a dictionary display `{"a": x, ...}` as a value. -/
def dictOf (kvs : List (String × Val F)) : Val F := .dict (entries kvs)

@[simp] theorem entries_nil : entries ([] : List (String × Val F)) = [] := rfl

@[simp] theorem entries_cons (k : String) (v : Val F) (kvs : List (String × Val F)) :
    entries ((k, v) :: kvs) = (.str (py k), v) :: entries kvs := rfl

/-- The value stored under a string. -/
def lookup (k : Str) : Dict F → Option (Val F)
  | [] => none
  | (.str k', v) :: kvs => if k' = k then some v else lookup k kvs
  | _ :: kvs => lookup k kvs

@[simp] theorem lookup_nil (k : Str) : lookup k ([] : Dict F) = none := rfl

@[simp] theorem lookup_cons_str (k k' : Str) (v : Val F) (kvs : Dict F) :
    lookup k ((.str k', v) :: kvs) = if k' = k then some v else lookup k kvs := rfl

/-- `mapping.get("k")` -/
def field (k : String) (kvs : Dict F) : Val F := (lookup (py k) kvs).getD .none

/-- `d["k"]` -/
def Val.getItem (k : String) : Val F → Except Exc (Val F)
  | .dict kvs => match lookup (py k) kvs with
    | some v => .ok v
    | .none => .error .keyError
  | _ => .error .typeError

theorem getItem_of_lookup {k : String} {d : Dict F} {v : Val F} (h : lookup (py k) d = some v) :
    (Val.dict d).getItem k = .ok v := by
  simp only [Val.getItem, h]

theorem lookup_of_getItem {k : String} {d : Dict F} {v : Val F}
    (h : (Val.dict d).getItem k = .ok v) : lookup (py k) d = some v := by
  simp only [Val.getItem] at h
  cases hk : lookup (py k) d with
  | none => rw [hk] at h; cases h
  | some u =>
    rw [hk] at h
    rw [Except.ok.inj h]

theorem exists_lookup {d : Dict F} {k : Str} (h : Key.str k ∈ d.map Prod.fst) :
    ∃ v, lookup k d = some v := by
  induction d with
  | nil => cases h
  | cons p d ih =>
    obtain ⟨k', v⟩ := p
    rw [List.map_cons, List.mem_cons] at h
    by_cases hk : k' = .str k
    · exact ⟨v, by rw [hk, lookup_cons_str, if_pos rfl]⟩
    · obtain ⟨w, hw⟩ := ih (h.resolve_left fun he => hk he.symm)
      refine ⟨w, ?_⟩
      cases k' with
      | str s => rw [lookup_cons_str, if_neg fun he => hk (by rw [he]), hw]
      | _ => exact hw

theorem exists_getItem {d : Dict F} {k : String} (h : Key.str (py k) ∈ d.map Prod.fst) :
    ∃ v, (Val.dict d).getItem k = .ok v := by
  obtain ⟨v, hv⟩ := exists_lookup h
  exact ⟨v, getItem_of_lookup hv⟩

/-- `d.get("k")` -/
def Val.get (k : String) : Val F → Except Exc (Val F)
  | .dict kvs => .ok ((lookup (py k) kvs).getD .none)
  | _ => .error .attributeError

/-- `bool(x)` -/
def Val.truthy [PyFloat F] : Val F → Bool
  | .none => false
  | .bool b => b
  | .int n => n != 0
  | .float x => !PyFloat.eqInt x 0
  | .str s => !s.isEmpty
  | .bytes b => !b.isEmpty
  | .list xs => !xs.isEmpty
  | .tuple xs => !xs.isEmpty
  | .dict kvs => !kvs.isEmpty

def Key.toVal : Key F → Val F
  | .none => .none
  | .bool b => .bool b
  | .int n => .int n
  | .float x => .float x
  | .str s => .str s
  | .bytes b => .bytes b
  | .tuple ks => .tuple (toVals ks)
where
  toVals : List (Key F) → List (Val F)
    | [] => []
    | k :: ks => Key.toVal k :: toVals ks

mutual

/-- The value as a key; lists and dictionaries are unhashable. -/
def Val.toKey : Val F → Option (Key F)
  | .none => some .none
  | .bool b => some (.bool b)
  | .int n => some (.int n)
  | .float x => some (.float x)
  | .str s => some (.str s)
  | .bytes b => some (.bytes b)
  | .tuple xs => (toKeys xs).map .tuple
  | .list _ | .dict _ => none

def toKeys : List (Val F) → Option (List (Key F))
  | [] => some []
  | x :: xs => (Val.toKey x).bind fun k => (toKeys xs).map (k :: ·)

end

/-- `iter(x)` -/
def Val.iter : Val F → Except Exc (List (Val F))
  | .list xs | .tuple xs => .ok xs
  | .dict kvs => .ok (kvs.map fun p => p.1.toVal)
  | .str s => .ok (s.map fun c => .str [c])
  | .bytes b => .ok (b.map fun c => .int c.toNat)
  | _ => .error .typeError

/-- `float(x)`, `none` for its `OverflowError`, `TypeError` and `ValueError` -/
def Val.toFloat [PyFloat F] : Val F → Option F
  | .bool b => PyFloat.ofInt b.toInt
  | .int n => PyFloat.ofInt n
  | .float x => some x
  | .str s => PyFloat.ofStr s
  | .bytes b => PyFloat.ofBytes b
  | _ => Option.none

/-- The value, or the exception of the conversion. -/
def orRaise {α : Type} (x : Option α) (e : Exc) : Except Exc α := match x with
  | some a => .ok a
  | none => .error e

theorem orRaise_eq_ok {α : Type} {x : Option α} {e : Exc} {a : α} :
    orRaise x e = .ok a ↔ x = some a := by
  cases x <;> simp [orRaise]

/-- `float(x)` with its exceptions -/
def pyFloat [PyFloat F] : Val F → Except Exc F
  | .bool b => orRaise (PyFloat.ofInt b.toInt) .overflowError
  | .int n => orRaise (PyFloat.ofInt n) .overflowError
  | .float x => .ok x
  | .str s => orRaise (PyFloat.ofStr s) .valueError
  | .bytes b => orRaise (PyFloat.ofBytes b) .valueError
  | _ => .error .typeError

theorem pyFloat_eq_ok [PyFloat F] {v : Val F} {x : F} : pyFloat v = .ok x ↔ v.toFloat = some x := by
  cases v with
  | bool | int | str | bytes => exact orRaise_eq_ok
  | _ => simp [pyFloat, Val.toFloat]

/-- `float` overflows, or raises what the readers catch. -/
theorem pyFloat_raises [PyFloat F] {v : Val F} {e : Exc} (h : pyFloat v = .error e) :
    e = .overflowError ∨ e = .typeError ∨ e.isValueError = true := by
  have hor : ∀ {x : Option F} {e' : Exc}, orRaise x e' = .error e → e = e' := by
    intro x e' h
    cases x with
    | none => exact (Except.error.inj h).symm
    | some y => cases h
  cases v with
  | bool | int => exact .inl (hor h)
  | str | bytes => exact .inr (.inr (hor h ▸ rfl))
  | float => cases h
  | _ =>
    cases h
    exact .inr (.inl rfl)

/-! ### Equality -/

section Eq

variable [PyFloat F]

mutual

/-- `a == b` of two keys. -/
def Key.eq : Key F → Key F → Bool
  | .none, .none => true
  | .bool a, .bool b => a == b
  | .bool a, .int n | .int n, .bool a => n == a.toInt
  | .bool a, .float x | .float x, .bool a => PyFloat.eqInt x a.toInt
  | .int m, .int n => m == n
  | .int n, .float x | .float x, .int n => PyFloat.eqInt x n
  | .float x, .float y => PyFloat.eq x y
  | .str a, .str b => a == b
  | .bytes a, .bytes b => a == b
  | .tuple a, .tuple b => Key.eqs a b
  | _, _ => false

def Key.eqs : List (Key F) → List (Key F) → Bool
  | [], [] => true
  | k :: ks, k' :: ks' => Key.eq k k' && Key.eqs ks ks'
  | _, _ => false

end

/-- The value stored under a key. -/
def findKey (k : Key F) : Dict F → Option (Val F)
  | [] => none
  | (k', v) :: kvs => if Key.eq k k' then some v else findKey k kvs

mutual

/-- `a == b` -/
def Val.eq : Val F → Val F → Bool
  | .none, .none => true
  | .bool a, .bool b => a == b
  | .bool a, .int n | .int n, .bool a => n == a.toInt
  | .bool a, .float x | .float x, .bool a => PyFloat.eqInt x a.toInt
  | .int m, .int n => m == n
  | .int n, .float x | .float x, .int n => PyFloat.eqInt x n
  | .float x, .float y => PyFloat.eq x y
  | .str a, .str b => a == b
  | .bytes a, .bytes b => a == b
  | .list a, .list b | .tuple a, .tuple b => Val.eqs a b
  | .dict a, .dict b => a.length == b.length && Val.subDict a b
  | _, _ => false

def Val.eqs : List (Val F) → List (Val F) → Bool
  | [], [] => true
  | v :: vs, w :: ws => Val.eq v w && Val.eqs vs ws
  | _, _ => false

/-- Every entry of the first dictionary is one of the second. -/
def Val.subDict : Dict F → Dict F → Bool
  | [], _ => true
  | (k, v) :: kvs, b =>
    (match findKey k b with
      | some w => Val.eq v w
      | .none => false) && Val.subDict kvs b

end

/-! ### Sets of keys -/

/-- `set(x)`, as the list of its elements: the first of those that are equal.  The keys of a
dictionary are distinct. -/
def Val.toSet (v : Val F) : Except Exc (List (Key F)) := match v with
  | .dict kvs => .ok (kvs.map Prod.fst)
  | v => do
    let xs ← v.iter
    orRaise ((toKeys xs).map fun ks => ks.eraseDupsBy Key.eq) .typeError

/-- The set of a dictionary is its keys. -/
theorem Val.toSet_dict (kvs : Dict F) : (Val.dict kvs).toSet = .ok (kvs.map Prod.fst) := rfl

/-- The class of values a key can be ordered with. -/
def Key.orderClass : Key F → Option ℕ
  | .none => Option.none
  | .bool _ | .int _ | .float _ => some 0
  | .str _ => some 1
  | .bytes _ => some 2
  | .tuple _ => some 3

mutual

/-- `a < b` returns for the two keys.  Tuples are compared at the first items that differ. -/
def Key.comparable : Key F → Key F → Bool
  | .tuple a, .tuple b => Key.comparables a b
  | a, b => a.orderClass.isSome && a.orderClass == b.orderClass

def Key.comparables : List (Key F) → List (Key F) → Bool
  | k :: ks, k' :: ks' => if Key.eq k k' then Key.comparables ks ks' else Key.comparable k k'
  | _, _ => true

end

def Key.strLe : Key F → Key F → Bool
  | .str s, .str t => Py.strLe s t
  | _, _ => true

/-- `sorted(keys)`, which raises where two keys cannot be compared.  Only strings are put in
order. -/
def sortedKeys (ks : List (Key F)) : Except Exc (List (Key F)) :=
  if ks.Pairwise fun a b => Key.comparable a b = true then
    .ok (ks.insertionSort fun a b => Key.strLe a b = true)
  else .error .typeError

/-- `s in keys` for a set of keys -/
def hasStr (s : String) (ks : List (Key F)) : Bool := ks.any fun k => Key.eq (.str (py s)) k

/-! ### What equality tells about the other side -/

theorem Key.eq_str_iff {s : Str} {k : Key F} : Key.eq (.str s) k = true ↔ k = .str s := by
  cases k with
  | str t =>
    simp only [Key.eq, beq_iff_eq, Key.str.injEq]
    exact eq_comm
  | _ => simp [Key.eq]

theorem hasStr_iff {s : String} {ks : List (Key F)} :
    hasStr s ks = true ↔ Key.str (py s) ∈ ks := by
  unfold hasStr
  simp only [List.any_eq_true, Key.eq_str_iff]
  exact ⟨fun ⟨_, hk, e⟩ => e ▸ hk, fun h => ⟨_, h, rfl⟩⟩

theorem findKey_str (s : Str) (kvs : Dict F) : findKey (.str s) kvs = lookup s kvs := by
  induction kvs with
  | nil => rfl
  | cons p kvs ih =>
    obtain ⟨k, v⟩ := p
    by_cases hk : k = .str s
    · subst hk
      simp [findKey, Key.eq_str_iff]
    · have hne : ¬ Key.eq (.str s) k = true := fun h => hk (Key.eq_str_iff.1 h)
      rw [findKey, if_neg hne, ih]
      cases k with
      | str t => rw [lookup_cons_str, if_neg (fun h => hk (congrArg Key.str h))]
      | _ => rfl

theorem Val.eq_str {s : Str} {w : Val F} (h : Val.eq (.str s) w = true) : w = .str s := by
  cases w <;> simp_all [Val.eq]

theorem eq_str_of_eq {v : Val F} {s : Str} (h : Val.eq v (.str s) = true) :
    v = .str s := by
  cases v with
  | str s' => rw [show s' = s from eq_of_beq h]
  | _ => cases h

theorem Val.eq_list {vs : List (Val F)} {w : Val F} (h : Val.eq (.list vs) w = true) :
    ∃ ws, w = .list ws ∧ Val.eqs vs ws = true := by
  cases w with
  | list ws => exact ⟨ws, rfl, by simpa [Val.eq] using h⟩
  | _ => simp [Val.eq] at h

theorem Val.eq_dict {a : Dict F} {w : Val F} (h : Val.eq (.dict a) w = true) :
    ∃ b, w = .dict b ∧ Val.subDict a b = true := by
  cases w with
  | dict b =>
    simp only [Val.eq, Bool.and_eq_true] at h
    exact ⟨b, rfl, h.2⟩
  | _ => simp [Val.eq] at h

/-- Equal lists are equal item by item. -/
theorem Val.eqs_iff_forall₂ {vs ws : List (Val F)} :
    Val.eqs vs ws = true ↔ List.Forall₂ (fun v w => Val.eq v w = true) vs ws := by
  induction vs generalizing ws with
  | nil => cases ws <;> simp [Val.eqs]
  | cons v vs ih =>
    cases ws with
    | nil => simp [Val.eqs]
    | cons w ws => simp [Val.eqs, ih]

/-- A string entry of a dictionary is found in every dictionary that contains it. -/
theorem Val.subDict_lookup {a b : Dict F} {k : Str} {v : Val F} (h : Val.subDict a b = true)
    (hk : lookup k a = some v) : ∃ w, lookup k b = some w ∧ Val.eq v w = true := by
  induction a with
  | nil => simp at hk
  | cons p a ih =>
    obtain ⟨k', v'⟩ := p
    simp only [Val.subDict, Bool.and_eq_true] at h
    obtain ⟨h₁, h₂⟩ := h
    cases k' with
    | str s =>
      rw [lookup_cons_str] at hk
      split_ifs at hk with hs
      · cases hk
        subst hs
        rw [findKey_str] at h₁
        cases hb : lookup s b with
        | none => simp [hb] at h₁
        | some w => exact ⟨w, rfl, by simpa [hb] using h₁⟩
      · exact ih h₂ hk
    | _ => exact ih h₂ hk

/-- The field `k` of a dictionary equal to `a`. -/
theorem Val.eq_getItem {a : Dict F} {w v : Val F} {k : String} (h : Val.eq (.dict a) w = true)
    (hk : lookup (py k) a = some v) : ∃ u, w.getItem k = .ok u ∧ Val.eq v u = true := by
  obtain ⟨b, rfl, hb⟩ := Val.eq_dict h
  obtain ⟨u, hu, he⟩ := Val.subDict_lookup hb hk
  exact ⟨u, by simp [Val.getItem, hu], he⟩

/-- The first dictionary is part of the second when each of its entries is found there. -/
theorem Val.subDict_of_forall {a b : Dict F}
    (h : ∀ p ∈ a, ∃ w, findKey p.1 b = some w ∧ Val.eq p.2 w = true) :
    Val.subDict a b = true := by
  induction a with
  | nil => rfl
  | cons p a ih =>
    obtain ⟨w, hw, he⟩ := h p List.mem_cons_self
    have hrest := ih fun q hq => h q (List.mem_cons_of_mem _ hq)
    simp [Val.subDict, hw, he, hrest]

end Eq

end Py
