/-
  File:      RolloutProxy/ToolParser/PythonJson.lean
  Subject:   PYTHON'S JSON BEHIND THE PARSERS: what the library of a dialect does where it is
             `json.loads` with `_reject_nonfinite`, `json.dumps` and `str`.

  A real library may stop at the recursion limit, which depends on the interpreter; apart from that
  it does what the definitions of JsonText.lean say. `repr` of a float is the one part left open.
-/
import RolloutProxy.JsonRead
import RolloutProxy.ToolParser.Dialects

namespace RolloutProxy.ToolParser

/-- The outcome of a decoder. -/
def decodedOr : Option Json → Except JsonError Json
  | some v => .ok v
  | none => .error .valueError

/-- `str(value)` of a value that is no container. -/
def scalarText (repr : Rat → List Char) : Json → Option (List Char)
  | .null => some ['N', 'o', 'n', 'e']
  | .bool true => some ['T', 'r', 'u', 'e']
  | .bool false => some ['F', 'a', 'l', 's', 'e']
  | .int n => some (intText n)
  | .float (.finite q) => some (repr q)
  | .float (.inf true) => some ['-', 'i', 'n', 'f']
  | .float (.inf false) => some ['i', 'n', 'f']
  | .float .nan => some ['n', 'a', 'n']
  | .str s => some s.toList
  | .arr _ => none
  | .obj _ => none

/-- A library that does what Python's does, up to the recursion limit. -/
structure PythonJson (repr : Rat → List Char) (lib : JsonLib) : Prop where
  reads : ∀ {text : List Char}, lib.loads text ≠ .error .recursionError →
    lib.loads text = decodedOr (loads text)
  writes : ∀ {v : Json} {text : List Char}, lib.dumps v = .ok text → text = dumps repr v
  spells : ∀ {v : Json} {t text : List Char}, scalarText repr v = some t → lib.str v = .ok text →
    text = t

/-- A library without a recursion limit; `str` of a container is left out. -/
def pythonJson (repr : Rat → List Char) : JsonLib where
  loads text := decodedOr (loads text)
  dumps v := .ok (dumps repr v)
  dumpsFinite v := if finiteNumbers v then .ok (dumps repr v) else .error .valueError
  str v := match scalarText repr v with
    | some t => .ok t
    | none => .error .valueError

theorem pythonJson_python (repr : Rat → List Char) : PythonJson repr (pythonJson repr) where
  reads _ := rfl
  writes h := (Except.ok.inj h).symm
  spells ht h := by
    unfold pythonJson at h
    simp only [ht] at h
    exact (Except.ok.inj h).symm

section Python

variable {repr : Rat → List Char} {lib : JsonLib}

/-- A text that was read. -/
theorem PythonJson.read (hlib : PythonJson repr lib) {text : List Char} {v : Json}
    (h : lib.loads text = .ok v) : loads text = some v := by
  have hreads : lib.loads text = decodedOr (loads text) := hlib.reads (by rw [h]; exact nofun)
  rw [h] at hreads
  cases hl : loads text with
  | none => rw [hl] at hreads; cases hreads
  | some w => rw [hl] at hreads; cases hreads; rfl

/-- **What was written reads back**, up to the recursion limit. -/
theorem PythonJson.read_written (hrepr : ReprReads repr) (hlib : PythonJson repr lib) {v : Json}
    (hw : Writable v) (hfin : finiteNumbers v = true) {text : List Char}
    (h : lib.dumps v = .ok text) (hlimit : lib.loads text ≠ .error .recursionError) :
    lib.loads text = .ok v := by
  rw [hlib.reads hlimit, hlib.writes h, loads_dumps hrepr hw, if_pos hfin]
  rfl

end Python

end RolloutProxy.ToolParser
