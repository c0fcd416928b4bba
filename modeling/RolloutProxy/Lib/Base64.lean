/-
  File:      RolloutProxy/Lib/Base64.lean
  Subject:   BASE64 as Python's `base64` module encodes and decodes it.

  * `encode` is `b64encode`; `decode strict` is `b64decode(text, validate=strict)`: a loop over the
    characters with the position in the group of four, the bits left over and the padding seen.
    Without `strict`, characters outside the alphabet are skipped.
-/
import Mathlib.Algebra.Ring.Nat
import Mathlib.Data.Fin.Basic

namespace RolloutProxy

abbrev Byte := Fin 256

instance byte_neZero : NeZero (256 : Nat) := ⟨by decide⟩

namespace Base64

/-! ## 1. The alphabet -/

/-- The character for six bits. -/
def symbol (n : Nat) : Char :=
  if n < 26 then Char.ofNat (n + 65)
  else if n < 52 then Char.ofNat (n + 71)
  else if n < 62 then Char.ofNat (n - 4)
  else if n = 62 then '+'
  else '/'

/-- The six bits of a character of the alphabet. -/
def digit? (c : Char) : Option Nat :=
  let n := c.toNat
  if 65 ≤ n ∧ n ≤ 90 then some (n - 65)
  else if 97 ≤ n ∧ n ≤ 122 then some (n - 71)
  else if 48 ≤ n ∧ n ≤ 57 then some (n + 4)
  else if n = 43 then some 62
  else if n = 47 then some 63
  else none

/-! ## 2. Encoding and decoding -/

/-- `b64encode` on bytes, as characters. -/
def encodeChars : List Byte → List Char
  | [] => []
  | [a] => [symbol (a / 4), symbol (a % 4 * 16), '=', '=']
  | [a, b] => [symbol (a / 4), symbol (a % 4 * 16 + b / 16), symbol (b % 16 * 4), '=']
  | a :: b :: c :: rest =>
    symbol (a / 4) :: symbol (a % 4 * 16 + b / 16) :: symbol (b % 16 * 4 + c / 64) ::
      symbol (c % 64) :: encodeChars rest

/-- `b64encode(data).decode("ascii")`. -/
def encode (bytes : List Byte) : String := String.ofList (encodeChars bytes)

/-- Where the decoding loop is: the position in the group of four, the bits left over from the
    last character, and the padding characters seen. -/
structure Cursor where
  pos : Nat
  left : Nat
  pads : Nat
  padded : Bool

def Cursor.start : Cursor := ⟨0, 0, 0, false⟩

/-- The byte a character completes, if it completes one, and the cursor behind it. -/
def Cursor.push (s : Cursor) (d : Nat) : Option Byte × Cursor :=
  match s.pos with
  | 0 => (none, ⟨1, d, 0, s.padded⟩)
  | 1 => (some (Fin.ofNat 256 (s.left * 4 + d / 16)), ⟨2, d % 16, 0, s.padded⟩)
  | 2 => (some (Fin.ofNat 256 (s.left * 16 + d / 4)), ⟨3, d % 4, 0, s.padded⟩)
  | _ => (some (Fin.ofNat 256 (s.left * 64 + d)), ⟨0, 0, 0, s.padded⟩)

/-- The loop of `binascii.a2b_base64`. -/
def decodeChars (strict : Bool) : Cursor → List Char → Option (List Byte)
  | s, [] => if s.pos = 0 then some [] else none
  | s, c :: rest =>
    if c = '=' then
      if 2 ≤ s.pos ∧ 4 ≤ s.pos + (s.pads + 1) then
        -- the group is complete, the rest of the text is not read
        if strict ∧ rest ≠ [] then none else some []
      else
        decodeChars strict { s with pads := if 2 ≤ s.pos then s.pads + 1 else s.pads,
                                    padded := true } rest
    else
      match digit? c with
      | none => if strict then none else decodeChars strict s rest
      | some d =>
        if strict ∧ s.padded then none else
        match s.push d with
        | (none, s') => decodeChars strict s' rest
        | (some b, s') => (decodeChars strict s' rest).map (b :: ·)

/-- `b64decode(text, validate=strict)`; `none` is `ValueError`. -/
def decode (strict : Bool) (text : String) : Option (List Byte) :=
  if text.toList.all (·.toNat < 128) then
    if strict ∧ text.toList.head? = some '=' then none
    else decodeChars strict .start text.toList
  else none

/-! ## 3. The round trip -/

end Base64

end RolloutProxy
