/-
  File:      RolloutProxy/Text.lean
  Subject:   The string operations of Python that the proxy uses: `str.isspace` on one character,
             `strip`, `join` and `removeprefix`, on Lean's own strings.

  Lean's `String.trim` knows ASCII whitespace only; Python's `strip` removes every character for
  which `str.isspace` holds, so the proxy's blank checks are modelled by the definitions here.
-/
import Mathlib.Data.List.TakeWhile

namespace RolloutProxy

/-- `ch.isspace()`. -/
def isSpace (c : Char) : Bool :=
  let n := c.toNat
  (9 ≤ n && n ≤ 13) || (28 ≤ n && n ≤ 32) || n == 0x85 || n == 0xa0 || n == 0x1680 ||
    (0x2000 ≤ n && n ≤ 0x200a) || n == 0x2028 || n == 0x2029 || n == 0x202f || n == 0x205f ||
    n == 0x3000

/-- `text.strip()` on the characters of a text. -/
def stripChars (l : List Char) : List Char :=
  ((l.dropWhile isSpace).reverse.dropWhile isSpace).reverse

/-- `text.strip()`. -/
def strip (s : String) : String := String.ofList (stripChars s.toList)

/-- `not text.strip()`: empty, or whitespace only. -/
def isBlank (s : String) : Bool := s.toList.all isSpace

/-- `sep.join(parts)`. -/
def joinWith (sep : String) : List String → String
  | [] => ""
  | [p] => p
  | p :: q :: rest => p ++ sep ++ joinWith sep (q :: rest)

/-- `str(n)` of an integer. -/
def pyStr (n : Int) : String := toString n

/-- A text without whitespace, by a check on its characters. -/
theorem unspaced_of_all {l : List Char} (h : l.all (!isSpace ·) = true) :
    ∀ c ∈ l, isSpace c = false := fun c hc =>
  (Bool.not_eq_true' _).mp (List.all_eq_true.mp h c hc)

theorem dropWhile_all {α : Type} {p : α → Bool} {l : List α} (h : l.all p = true) :
    l.dropWhile p = [] := by
  induction l with
  | nil => rfl
  | cons a l ih =>
    simp only [List.all_cons, Bool.and_eq_true] at h
    simp [h.1, ih h.2]

/-- Where nothing is left of a text, it was blank. -/
theorem stripChars_eq_nil {l : List Char} (h : stripChars l = []) : ∀ c ∈ l, isSpace c = true := by
  have hback : ∀ {k : List Char}, k.dropWhile isSpace = [] → ∀ c ∈ k, isSpace c = true :=
    fun hk => List.dropWhile_eq_nil_iff.mp hk
  have hfront : l.dropWhile isSpace = [] := by
    cases hd : l.dropWhile isSpace with
    | nil => rfl
    | cons c rest =>
        unfold stripChars at h
        rw [hd, List.reverse_eq_nil_iff] at h
        have hc := hback h c (by simp)
        have hhead := List.head_dropWhile_not isSpace (l := l) (by rw [hd]; simp)
        simp only [hd, List.head_cons, hc] at hhead
        cases hhead
  exact hback hfront

/-- Whitespace in front of a text is stripped. -/
theorem stripChars_blank_append {a : List Char} (h : a.all isSpace = true) (l : List Char) :
    stripChars (a ++ l) = stripChars l := by
  unfold stripChars
  rw [List.dropWhile_append_of_pos (List.all_eq_true.mp h)]

/-- Whitespace behind a text is stripped. -/
theorem stripChars_append_blank {b : List Char} (h : b.all isSpace = true) (l : List Char) :
    stripChars (l ++ b) = stripChars l := by
  unfold stripChars
  rw [List.dropWhile_append]
  split
  · next hl => rw [List.isEmpty_iff.mp hl, dropWhile_all h]
  · rw [List.reverse_append, List.dropWhile_append_of_pos (by simpa using h)]

end RolloutProxy
