/-
  File:      RolloutProxy/Json.lean
  Subject:   DECODED JSON: the Python values `json.loads` returns, with the type tests, the
             equality and the number conversions the proxy applies to them.

  * An object is its list of fields in document order; `get` is `d.get(key)`, with `null` for a
    missing key (Python's `None` and a JSON `null` read the same there); `has` is `key in d`.
  * A double is a rational number, an infinity or not a number: Python's decoder accepts the
    spellings `NaN` and `Infinity`, so a response body can hold them.
  * `pyEq` is Python's `==` on these values: numbers by value whatever their type (`True == 1`,
    `1 == 1.0`, nothing equals `nan`), objects whatever the order of their fields. Lists and dicts
    compare what they hold by `is` before `==`, and the decoder's `NaN` is one object.
  * `floatOfInt` is `float(n)`: the nearest double, ties to even, or `OverflowError`.
-/
import Mathlib.Algebra.Ring.Nat
import Mathlib.Data.Rat.Defs

namespace RolloutProxy

/-- A Python float. -/
inductive PyFloat where
  | finite (q : Rat)
  | inf (negative : Bool)
  | nan
  deriving DecidableEq

namespace PyFloat

/-- `math.isfinite(x)`. -/
def isFinite : PyFloat → Bool
  | .finite _ => true
  | _ => false

/-- `x == y` on floats. -/
def eq : PyFloat → PyFloat → Bool
  | .finite p, .finite q => p == q
  | .inf a, .inf b => a == b
  | _, _ => false

end PyFloat

inductive Json where
  | null
  | bool (b : Bool)
  | int (n : Int)
  | float (x : PyFloat)
  | str (s : String)
  | arr (items : List Json)
  | obj (fields : List (String × Json))

/-- The fields of an object, in document order: a Python `dict` with string keys. -/
abbrev Fields := List (String × Json)

namespace Fields

/-- `d.get(key)`, `None` where the key is missing. -/
def get : Fields → String → Json
  | [], _ => .null
  | (k, v) :: rest, key => if k = key then v else get rest key

/-- `key in d`. -/
def has (d : Fields) (key : String) : Bool := d.any fun e => e.1 = key

/-- `d.get(key, default)`. -/
def getD (d : Fields) (key : String) (default : Json) : Json :=
  if d.has key then d.get key else default

/-- `d[key] = v`: in place where the key exists, else last. -/
def set : Fields → String → Json → Fields
  | [], key, v => [(key, v)]
  | (k, w) :: rest, key, v => if k = key then (k, v) :: rest else (k, w) :: set rest key v

@[simp] theorem get_set_self (d : Fields) (key : String) (v : Json) :
    (d.set key v).get key = v := by
  induction d with
  | nil => simp [set, get]
  | cons e d ih =>
    obtain ⟨k, w⟩ := e
    by_cases h : k = key <;> simp [set, get, h, ih]

@[simp] theorem get_set_ne (d : Fields) {key key' : String} (v : Json) (h : key' ≠ key) :
    (d.set key v).get key' = d.get key' := by
  induction d with
  | nil => simp [set, get, Ne.symm h]
  | cons e d ih =>
    obtain ⟨k, w⟩ := e
    by_cases hk : k = key
    · subst hk
      simp [set, get, Ne.symm h]
    · by_cases hk' : k = key' <;> simp [set, get, hk, hk', ih, h]

/-- The keys after an assignment. -/
theorem has_set (d : Fields) (key key' : String) (v : Json) :
    has (set d key v) key' = (decide (key' = key) || has d key') := by
  induction d with
  | nil =>
    simp only [set, has, List.any_cons, List.any_nil, Bool.or_false]
    exact decide_eq_decide.mpr eq_comm
  | cons e rest ih =>
    obtain ⟨k, w⟩ := e
    unfold set
    split
    · next hk =>
      subst hk
      simp only [has, List.any_cons, ← Bool.or_assoc]
      rw [decide_eq_decide.mpr (eq_comm : key' = k ↔ k = key'), Bool.or_self]
    · simp only [has, List.any_cons] at ih ⊢
      rw [ih]
      cases decide (k = key') <;> cases decide (key' = key) <;> rfl

end Fields

namespace Json

/-- The number a value is in arithmetic and comparison (`bool` is a subclass of `int`). -/
def number : Json → Option PyFloat
  | .bool b => some (.finite (if b then 1 else 0))
  | .int n => some (.finite n)
  | .float x => some x
  | _ => none

/-- The decoder's `NaN`. -/
def isNan : Json → Bool
  | .float .nan => true
  | _ => false

mutual
/-- `a == b`. -/
def pyEq : Json → Json → Bool
  | .null, .null => true
  | .str s, .str t => s == t
  | .arr l, .arr m => pyEqItems l m
  | .obj l, .obj m => l.length == m.length && pyEqFields l m
  | a, b =>
    match number a, number b with
    | some x, some y => PyFloat.eq x y
    | _, _ => false
/-- `l == m` on lists. -/
def pyEqItems : List Json → List Json → Bool
  | [], [] => true
  | a :: l, b :: m => (pyEq a b || isNan a && isNan b) && pyEqItems l m
  | _, _ => false
/-- Every field of the first object is in the second with an equal value. -/
def pyEqFields : Fields → Fields → Bool
  | [], _ => true
  | (k, a) :: l, m =>
    Fields.has m k && (pyEq a (Fields.get m k) || isNan a && isNan (Fields.get m k)) &&
      pyEqFields l m
end

/-- `isinstance(value, str)` and its text. -/
def asStr : Json → Option String
  | .str s => some s
  | _ => none

/-- `type(value) is int`. -/
def asInt : Json → Option Int
  | .int n => some n
  | _ => none

/-- Truth of a value in a Python condition. -/
def truthy : Json → Bool
  | .null => false
  | .bool b => b
  | .int n => n != 0
  | .float (.finite q) => q != 0
  | .float _ => true
  | .str s => s != ""
  | .arr l => !l.isEmpty
  | .obj l => !l.isEmpty

/-- `type(value).__name__`. -/
def typeName : Json → String
  | .null => "NoneType"
  | .bool _ => "bool"
  | .int _ => "int"
  | .float _ => "float"
  | .str _ => "str"
  | .arr _ => "list"
  | .obj _ => "dict"

/-- `value is None`. -/
def isNull : Json → Bool
  | .null => true
  | _ => false

/-- `hash(value)` succeeds: lists and dicts are unhashable. -/
def hashable : Json → Bool
  | .arr _ => false
  | .obj _ => false
  | _ => true

@[simp] theorem pyEq_null : pyEq .null .null = true := by simp [pyEq]

@[simp] theorem pyEq_str (s t : String) : pyEq (.str s) (.str t) = (s == t) := by simp [pyEq]

end Json

theorem pyEq_str_left {s : String} {v : Json} (h : (Json.str s).pyEq v = true) : v = .str s := by
  cases v with
  | str t =>
      simp only [Json.pyEq_str, beq_iff_eq] at h
      rw [h]
  | null | bool | int | float | arr | obj => simp [Json.pyEq, Json.number] at h

theorem pyEq_str_right {s : String} {v : Json} (h : v.pyEq (.str s) = true) : v = .str s := by
  cases v with
  | str t =>
      simp only [Json.pyEq_str, beq_iff_eq] at h
      rw [h]
  | null | bool | int | float | arr | obj => simp [Json.pyEq, Json.number] at h

namespace Json

mutual
/-- Every dict in a value has its keys once. -/
def KeysOnce : Json → Prop
  | .arr items => KeysOnceItems items
  | .obj fields => (fields.map Prod.fst).Nodup ∧ KeysOnceFields fields
  | _ => True
def KeysOnceItems : List Json → Prop
  | [] => True
  | v :: items => KeysOnce v ∧ KeysOnceItems items
def KeysOnceFields : Fields → Prop
  | [] => True
  | (_, v) :: fields => KeysOnce v ∧ KeysOnceFields fields
end

theorem keysOnceFields_set {key : String} {v : Json} (hv : KeysOnce v) : ∀ {d : Fields},
    KeysOnceFields d → KeysOnceFields (d.set key v)
  | [], _ => ⟨hv, trivial⟩
  | (k, w) :: d, h => by
      unfold Fields.set
      split
      · exact ⟨hv, h.2⟩
      · exact ⟨h.1, keysOnceFields_set hv h.2⟩

/-- Fields are found under their keys, where no key is there twice. -/
theorem get_append_of_not_mem {k : String} : ∀ {front : Fields} (rest : Fields),
    k ∉ front.map Prod.fst → Fields.get (front ++ rest) k = Fields.get rest k
  | [], _, _ => rfl
  | (k', _) :: front, rest, h => by
      have hne : k' ≠ k := fun he => h (by simp [he])
      have hfront : k ∉ front.map Prod.fst := fun hm => h (List.mem_cons_of_mem _ hm)
      rw [List.cons_append, Fields.get, if_neg hne, get_append_of_not_mem rest hfront]

mutual
/-- **A value is equal to itself**, to the items of a list or dict it is one of. -/
theorem pyEq_self : ∀ v : Json, KeysOnce v → (pyEq v v || isNan v && isNan v) = true
  | .null, _ => by rw [pyEq_null]; rfl
  | .bool b, _ => by simp [pyEq, number, PyFloat.eq]
  | .int n, _ => by simp [pyEq, number, PyFloat.eq]
  | .float (.finite q), _ => by simp [pyEq, number, PyFloat.eq]
  | .float (.inf b), _ => by simp [pyEq, number, PyFloat.eq]
  | .float .nan, _ => by simp [isNan]
  | .str s, _ => by simp
  | .arr items, h => by
      rw [pyEq, pyEqItems_self items h]
      rfl
  | .obj fields, h => by
      have hfields : pyEqFields fields fields = true := pyEqFields_self [] fields h.1 h.2
      rw [pyEq, hfields]
      simp
theorem pyEqItems_self : ∀ items : List Json, KeysOnceItems items → pyEqItems items items = true
  | [], _ => by rw [pyEqItems]
  | v :: items, h => by rw [pyEqItems, pyEq_self v h.1, pyEqItems_self items h.2]; rfl
theorem pyEqFields_self : ∀ front fields : Fields, ((front ++ fields).map Prod.fst).Nodup →
    KeysOnceFields fields → pyEqFields fields (front ++ fields) = true
  | _, [], _, _ => by rw [pyEqFields]
  | front, (k, v) :: fields, hnodup, h => by
      have hfront : k ∉ front.map Prod.fst := fun hmem => by
        rw [List.map_append, List.nodup_append] at hnodup
        exact hnodup.2.2 _ hmem _ (by simp) rfl
      have hget : Fields.get (front ++ (k, v) :: fields) k = v := by
        rw [get_append_of_not_mem _ hfront, Fields.get, if_pos rfl]
      have hhas : Fields.has (front ++ (k, v) :: fields) k = true := by simp [Fields.has]
      have hshift : front ++ (k, v) :: fields = (front ++ [(k, v)]) ++ fields := by simp
      rw [pyEqFields, hget, hhas, pyEq_self v h.1]
      rw [hshift] at hnodup ⊢
      rw [pyEqFields_self (front ++ [(k, v)]) fields hnodup h.2]
      rfl
end

end Json

/-- The keys of a dictionary stay distinct. -/
theorem set_nodup : ∀ {d : Fields} {key : String} {v : Json}, (d.map Prod.fst).Nodup →
    ((Fields.set d key v).map Prod.fst).Nodup
  | [], _, _, _ => List.nodup_cons.mpr ⟨List.not_mem_nil, List.nodup_nil⟩
  | (k, w) :: d, key, v, h => by
      obtain ⟨hk, hd⟩ := List.nodup_cons.mp h
      unfold Fields.set
      split
      · next heq => exact List.nodup_cons.mpr ⟨hk, hd⟩
      · next hne =>
        refine List.nodup_cons.mpr ⟨fun hm => ?_, set_nodup hd⟩
        obtain ⟨e, he, hfst⟩ := List.mem_map.mp hm
        have hhas : Fields.has (Fields.set d key v) k = true :=
          List.any_eq_true.mpr ⟨e, he, decide_eq_true hfst⟩
        rw [Fields.has_set, decide_eq_false hne, Bool.false_or] at hhas
        obtain ⟨e', he', hfst'⟩ := List.any_eq_true.mp hhas
        exact hk (List.mem_map.mpr ⟨e', he', of_decide_eq_true hfst'⟩)

/-! ## `float(n)` -/

/-- `n` rounded to 53 significant bits, ties to even. -/
def roundBits (n : Nat) : Nat :=
  if n < 2 ^ 53 then n else
    let shift := n.log2 - 52
    let low := n % 2 ^ shift
    let high := n / 2 ^ shift
    let up := 2 ^ shift < 2 * low || (2 ^ shift == 2 * low && high % 2 == 1)
    (if up then high + 1 else high) * 2 ^ shift

/-- `float(n)`; `none` is `OverflowError`. -/
def floatOfInt (n : Int) : Option PyFloat :=
  let m := roundBits n.natAbs
  if 2 ^ 1024 ≤ m then none else some (.finite (if n < 0 then -(m : Rat) else m))

/-- `protocol.finite`: a finite int or float; bools and overflowing ints are not. -/
def finite : Json → Bool
  | .int n => (floatOfInt n).isSome
  | .float x => x.isFinite
  | _ => false

theorem floatOfInt_isFinite {n : Int} {x : PyFloat} (h : floatOfInt n = some x) :
    x.isFinite = true := by
  unfold floatOfInt at h
  simp only at h
  split at h
  · cases h
  · simp only [Option.some.injEq] at h
    subst h
    rfl

end RolloutProxy
