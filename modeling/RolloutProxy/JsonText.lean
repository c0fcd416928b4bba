/-
  File:      RolloutProxy/JsonText.lean
  Subject:   JSON AS TEXT: Python's `json.dumps(value, ensure_ascii=False)` and `json.loads` with a
             hook that refuses `NaN` and the infinities, on the characters of a text.

  * `readValue` reads one value and leaves the rest; the fuel bounds the turns by the length.
  * A number is the longest run of its characters, which must be one literal: what follows a value
    in JSON is never such a character.
  * `repr` of a double is a parameter; what is assumed of it is that it reads back (`ReprReads`).
  * `dumpsWith gap` writes `gap` behind its separators: a space, or nothing for `(",", ":")`.
  * `read_dumps`: the text of a value reads back as that value, or, where a number in it is not
    finite, is no JSON at all.

  A lone surrogate has no Lean character: an escaped one is read as the replacement character.
  And there is one zero: `-0.0` is read, and written, as `0.0`.
-/
import RolloutProxy.Text
import RolloutProxy.Json

namespace RolloutProxy

/-! ## 1. Numbers -/

/-- `q * 2 ** e`. -/
def scale (q : Rat) (e : Int) : Rat := if 0 ≤ e then q * 2 ^ e.toNat else q / 2 ^ (-e).toNat

/-- The double nearest to `q`, ties to even, or an infinity. -/
def nearestDouble (q : Rat) : PyFloat :=
  let a := if q < 0 then -q else q
  if a = 0 then .finite 0
  else
    let k : Int := a.num.natAbs.log2 - a.den.log2
    let k := if scale 1 k ≤ a then k else k - 1
    let e := max (k - 52) (-1074)
    let m := scale a (-e)
    let low := m.num / m.den
    let frac := m - low
    let n := if 1 < 2 * frac ∨ (2 * frac = 1 ∧ low % 2 = 1) then low + 1 else low
    let x := scale n e
    if 2 ^ 1024 ≤ x then .inf (q < 0) else .finite (if q < 0 then -x else x)

def isNumberChar (c : Char) : Bool := c.isDigit || ['-', '+', '.', 'e', 'E'].contains c

/-- `(\.[0-9]+)?`: its digits, and the rest. -/
def fractionOf : List Char → List Char × List Char
  | '.' :: l =>
    if (l.takeWhile Char.isDigit).isEmpty then ([], '.' :: l)
    else (l.takeWhile Char.isDigit, l.dropWhile Char.isDigit)
  | l => ([], l)

/-- `[-+]?` -/
def signOf : List Char → Bool × List Char
  | '-' :: l => (true, l)
  | '+' :: l => (false, l)
  | l => (false, l)

/-- `([eE][-+]?[0-9]+)?`: its value, and the rest. -/
def exponentOf : List Char → Option Int × List Char
  | [] => (none, [])
  | c :: l =>
    if c = 'e' ∨ c = 'E' then
      let s := signOf l
      let digits := s.2.takeWhile Char.isDigit
      if digits.isEmpty then (none, c :: l)
      else
        let n : Int := Nat.ofDigitChars 10 digits 0
        (some (if s.1 then -n else n), s.2.dropWhile Char.isDigit)
    else (none, c :: l)

/-- `sys.int_info.default_max_str_digits` -/
def digitLimit : Nat := 4300

/-- One number literal: an `int`, or a `float` where it has a fraction or an exponent. -/
def numberOf (l : List Char) : Option Json :=
  let negative := l.head? == some '-'
  let l := if negative then l.drop 1 else l
  let whole := l.takeWhile Char.isDigit
  let f := fractionOf (l.dropWhile Char.isDigit)
  let e := exponentOf f.2
  if whole.isEmpty || (whole.head? == some '0' && whole.length != 1) || !e.2.isEmpty then none
  else if f.1.isEmpty && e.1.isNone then
    if digitLimit < whole.length then none
    else
      let n : Int := Nat.ofDigitChars 10 whole 0
      some (.int (if negative then -n else n))
  else
    let n : Rat := (Nat.ofDigitChars 10 (whole ++ f.1) 0 : Nat)
    let n := if negative then -n else n
    let exponent := e.1.getD 0 - f.1.length
    some (.float (nearestDouble
      (if 0 ≤ exponent then n * 10 ^ exponent.toNat else n / 10 ^ (-exponent).toNat)))

/-- `int.__repr__`. -/
def intText (n : Int) : List Char :=
  if n < 0 then '-' :: Nat.toDigits 10 n.natAbs else Nat.toDigits 10 n.natAbs

/-! ## 2. Strings -/

/-- A hexadecimal digit of an escape. -/
def hexDigit (n : Nat) : Char := Nat.digitChar n

/-- A character of a string, escaped where JSON demands it. -/
def escapeChar (c : Char) : List Char :=
  if c = '"' then ['\\', '"']
  else if c = '\\' then ['\\', '\\']
  else if c = '\n' then ['\\', 'n']
  else if c = '\r' then ['\\', 'r']
  else if c = '\t' then ['\\', 't']
  else if c = '\x08' then ['\\', 'b']
  else if c = '\x0c' then ['\\', 'f']
  else if c.toNat < 32 then ['\\', 'u', '0', '0', hexDigit (c.toNat / 16), hexDigit (c.toNat % 16)]
  else [c]

/-- A string literal. -/
def stringText (s : List Char) : List Char := '"' :: (s.flatMap escapeChar ++ ['"'])

/-- The value of a hexadecimal digit. -/
def hexValue (c : Char) : Option Nat :=
  if c.isDigit then some (c.toNat - 48)
  else if 'a' ≤ c && c ≤ 'f' then some (c.toNat - 87)
  else if 'A' ≤ c && c ≤ 'F' then some (c.toNat - 55)
  else none

/-- A JSON escape other than `\u`. -/
def escapeValue : Char → Option Nat
  | '"' => some 34
  | '\\' => some 92
  | '/' => some 47
  | 'b' => some 8
  | 'f' => some 12
  | 'n' => some 10
  | 'r' => some 13
  | 't' => some 9
  | _ => none

/-- A string behind its opening quote, as code points, and the rest of the text. -/
def stringUnits : List Char → Option (List Nat × List Char)
  | [] => none
  | '"' :: l => some ([], l)
  | '\\' :: 'u' :: a :: b :: c :: d :: l => do
    let n := (← hexValue a) * 4096 + (← hexValue b) * 256 + (← hexValue c) * 16 + (← hexValue d)
    let r ← stringUnits l
    return (n :: r.1, r.2)
  | '\\' :: e :: l => do
    let n ← escapeValue e
    let r ← stringUnits l
    return (n :: r.1, r.2)
  | c :: l => if c.toNat < 32 then none else (stringUnits l).map fun r => (c.toNat :: r.1, r.2)

def isHigh (n : Nat) : Bool := 0xd800 ≤ n && n < 0xdc00
def isLow (n : Nat) : Bool := 0xdc00 ≤ n && n < 0xe000

/-- One code point. -/
def unitChar (n : Nat) : Char := if isHigh n || isLow n then '\ufffd' else Char.ofNat n

/-- Code points, with the escaped surrogate pairs joined. -/
def unitsText : List Nat → List Char
  | h :: l :: rest =>
    if isHigh h && isLow l then
      Char.ofNat (0x10000 + (h - 0xd800) * 1024 + (l - 0xdc00)) :: unitsText rest
    else unitChar h :: unitsText (l :: rest)
  | [n] => [unitChar n]
  | [] => []

/-! ## 3. Values -/

section Dumps

variable (gap : List Char) (repr : Rat → List Char)

/-- `float.__repr__` as `json.dumps` writes it. -/
def floatText : PyFloat → List Char
  | .finite q => repr q
  | .inf true => ['-', 'I', 'n', 'f', 'i', 'n', 'i', 't', 'y']
  | .inf false => ['I', 'n', 'f', 'i', 'n', 'i', 't', 'y']
  | .nan => ['N', 'a', 'N']

def nullText : List Char := ['n', 'u', 'l', 'l']
def trueText : List Char := ['t', 'r', 'u', 'e']
def falseText : List Char := ['f', 'a', 'l', 's', 'e']

mutual
/-- `json.dumps(value, ensure_ascii=False, separators=("," + gap, ":" + gap))`. -/
def dumpsWith : Json → List Char
  | .null => nullText
  | .bool true => trueText
  | .bool false => falseText
  | .int n => intText n
  | .float x => floatText repr x
  | .str s => stringText s.toList
  | .arr [] => ['[', ']']
  | .arr (v :: items) => '[' :: (dumpsWith v ++ dumpsItems items)
  | .obj [] => ['{', '}']
  | .obj ((k, v) :: fields) =>
    '{' :: (stringText k.toList ++ ':' :: gap ++ dumpsWith v ++ dumpsFields fields)
/-- The items behind the first one, and the bracket. -/
def dumpsItems : List Json → List Char
  | [] => [']']
  | v :: items => ',' :: gap ++ dumpsWith v ++ dumpsItems items
/-- The fields behind the first one, and the brace. -/
def dumpsFields : List (String × Json) → List Char
  | [] => ['}']
  | (k, v) :: fields =>
    ',' :: gap ++ stringText k.toList ++ ':' :: gap ++ dumpsWith v ++ dumpsFields fields
end

/-- `json.dumps(value, ensure_ascii=False)`. -/
def dumps (v : Json) : List Char := dumpsWith [' '] repr v

end Dumps

/-- `[ \t\n\r]*` -/
def skipSpace (l : List Char) : List Char := l.dropWhile fun c => [' ', '\t', '\n', '\r'].contains c

/-- A literal word or a number. -/
def readScalar (l : List Char) : Option (Json × List Char) :=
  if nullText.isPrefixOf l then some (.null, l.drop 4)
  else if trueText.isPrefixOf l then some (.bool true, l.drop 4)
  else if falseText.isPrefixOf l then some (.bool false, l.drop 5)
  else (numberOf (l.takeWhile isNumberChar)).map fun v => (v, l.dropWhile isNumberChar)

/-- The fields in order, a later value in the place of an earlier one. -/
def pairsDict (fields : List (String × Json)) : Fields :=
  fields.foldl (fun d e => Fields.set d e.1 e.2) []

mutual
/-- `scan_once`: the value at the head of the text, and the rest. -/
def readValue : Nat → List Char → Option (Json × List Char)
  | 0, _ => none
  | fuel + 1, l =>
    match l with
    | [] => none
    | c :: rest =>
      if c = '"' then
        (stringUnits rest).map fun r => (.str (String.ofList (unitsText r.1)), r.2)
      else if c = '[' then
        match skipSpace rest with
        | ']' :: rest => some (.arr [], rest)
        | rest => do
          let v ← readValue fuel rest
          let items ← readItems fuel v.2
          return (.arr (v.1 :: items.1), items.2)
      else if c = '{' then
        match skipSpace rest with
        | '}' :: rest => some (.obj [], rest)
        | rest => do
          let e ← readField fuel rest
          let fields ← readFields fuel e.2
          return (.obj (pairsDict (e.1 :: fields.1)), fields.2)
      else readScalar (c :: rest)
/-- The items behind a value, up to the bracket. -/
def readItems : Nat → List Char → Option (List Json × List Char)
  | 0, _ => none
  | fuel + 1, l =>
    match skipSpace l with
    | ']' :: rest => some ([], rest)
    | ',' :: rest => do
      let v ← readValue fuel (skipSpace rest)
      let items ← readItems fuel v.2
      return (v.1 :: items.1, items.2)
    | _ => none
/-- A key, its colon and its value. -/
def readField : Nat → List Char → Option ((String × Json) × List Char)
  | 0, _ => none
  | fuel + 1, l =>
    match l with
    | '"' :: rest => do
      let k ← stringUnits rest
      match skipSpace k.2 with
      | ':' :: rest =>
        let v ← readValue fuel (skipSpace rest)
        return ((String.ofList (unitsText k.1), v.1), v.2)
      | _ => none
    | _ => none
/-- The fields behind a field, up to the brace. -/
def readFields : Nat → List Char → Option (List (String × Json) × List Char)
  | 0, _ => none
  | fuel + 1, l =>
    match skipSpace l with
    | '}' :: rest => some ([], rest)
    | ',' :: rest => do
      let e ← readField fuel (skipSpace rest)
      let fields ← readFields fuel e.2
      return (e.1 :: fields.1, fields.2)
    | _ => none
end

/-- `json.loads`; `none` where it raises `ValueError`. -/
def loads (text : List Char) : Option Json :=
  match readValue text.length (skipSpace text) with
  | some (v, rest) => if (skipSpace rest).isEmpty then some v else none
  | none => none

/-! ## 4. Numbers read back -/

/-- No number goes on. -/
def Stops (rest : List Char) : Prop := ∀ c ∈ rest.head?, isNumberChar c = false

/-- `repr` of a double is a number literal that reads back. -/
def ReprReads (repr : Rat → List Char) : Prop := ∀ q, nearestDouble q = .finite q →
  numberOf (repr q) = some (.float (.finite q)) ∧ ∀ c ∈ repr q, isNumberChar c = true

/-- A run of number characters is read whole. -/
theorem lexeme {t rest : List Char} (ht : ∀ c ∈ t, isNumberChar c = true) (hrest : Stops rest) :
    (t ++ rest).takeWhile isNumberChar = t ∧ (t ++ rest).dropWhile isNumberChar = rest := by
  have hstop : rest.takeWhile isNumberChar = [] ∧ rest.dropWhile isNumberChar = rest := by
    cases rest with
    | nil => exact ⟨rfl, rfl⟩
    | cons c rest =>
        have hc : isNumberChar c = false := hrest c rfl
        simp [hc]
  rw [List.takeWhile_append_of_pos ht, List.dropWhile_append_of_pos ht, hstop.1, hstop.2,
    List.append_nil]
  exact ⟨rfl, rfl⟩

theorem isNumberChar_of_isDigit {c : Char} (h : c.isDigit = true) : isNumberChar c = true := by
  unfold isNumberChar
  rw [h, Bool.true_or]

/-- The head of a number is the head of no other value. -/
theorem isNumberChar_head {c : Char} (h : isNumberChar c = true) :
    c ∉ ['"', '[', ']', '{', '}', 'n', 't', 'f', ' ', '\t', '\n', '\r'] := by
  intro hm
  simp only [List.mem_cons, List.not_mem_nil, or_false] at hm
  rcases hm with rfl | rfl | rfl | rfl | rfl | rfl | rfl | rfl | rfl | rfl | rfl | rfl <;>
    exact absurd h (by decide)

/-- A number is read as its literal. -/
theorem readValue_number {t rest : List Char} (hne : t ≠ []) (ht : ∀ c ∈ t, isNumberChar c = true)
    (hrest : Stops rest) (fuel : Nat) :
    readValue (fuel + 1) (t ++ rest) = (numberOf t).map fun v => (v, rest) := by
  obtain ⟨hrun, hbehind⟩ := lexeme ht hrest
  obtain ⟨c, t', rfl⟩ := List.exists_cons_of_ne_nil hne
  have hc := isNumberChar_head (ht c List.mem_cons_self)
  simp only [List.mem_cons, List.not_mem_nil, or_false, not_or] at hc
  obtain ⟨hquote, hbracket, -, hbrace, -, hn, htr, hf, -⟩ := hc
  have hword : ∀ {w : List Char} {d : Char}, c ≠ d →
      (d :: w).isPrefixOf (c :: t' ++ rest) = false :=
    fun hd => by simp [List.isPrefixOf, Ne.symm hd]
  rw [List.cons_append] at hrun hbehind hword ⊢
  unfold readValue
  simp only
  rw [if_neg hquote, if_neg hbracket, if_neg hbrace]
  unfold readScalar
  rw [nullText, trueText, falseText, hword hn, hword htr, hword hf, hrun, hbehind]
  rfl

/-- No zero leads a number but zero itself. -/
theorem toDigits_head (n : Nat) : (Nat.toDigits 10 n).head? = some '0' → n = 0 := by
  have hsmall : ∀ m < 10, [Nat.digitChar m].head? = some '0' → m = 0 := by decide
  induction n using Nat.strongRecOn with
  | ind n ih =>
    intro h
    by_cases hlt : n < 10
    · rw [Nat.toDigits_of_lt_base hlt] at h
      exact hsmall n hlt h
    · have hge : 10 ≤ n := not_lt.mp hlt
      obtain ⟨c, l, hl⟩ := List.exists_cons_of_ne_nil (Nat.toDigits_ne_nil (n := n / 10) (b := 10))
      rw [Nat.toDigits_of_base_le (by decide) hge, hl] at h
      have hlead := ih (n / 10) (by omega) (by rw [hl]; exact h)
      omega

/-- A leading zero is the whole number. -/
theorem toDigits_lead (n : Nat) :
    ((Nat.toDigits 10 n).head? == some '0' && (Nat.toDigits 10 n).length != 1) = false := by
  rw [Bool.and_eq_false_iff]
  by_cases h0 : (Nat.toDigits 10 n).head? = some '0'
  · exact .inr (by rw [toDigits_head n h0]; rfl)
  · exact .inl (by simpa using h0)

/-- A whole number, with a sign or without. -/
theorem numberOf_digits {ds : List Char} (hdigits : ∀ c ∈ ds, c.isDigit = true) (hne : ds ≠ [])
    (hlead : (ds.head? == some '0' && ds.length != 1) = false) (negative : Bool) :
    numberOf (if negative then '-' :: ds else ds) =
      if digitLimit < ds.length then none
      else some (.int (if negative then -(Nat.ofDigitChars 10 ds 0 : Nat)
        else (Nat.ofDigitChars 10 ds 0 : Nat))) := by
  have htake : (ds ++ []).takeWhile Char.isDigit = ds ++ [].takeWhile Char.isDigit :=
    List.takeWhile_append_of_pos hdigits
  have hdrop : (ds ++ []).dropWhile Char.isDigit = [].dropWhile Char.isDigit :=
    List.dropWhile_append_of_pos hdigits
  simp only [List.append_nil, List.takeWhile_nil, List.dropWhile_nil] at htake hdrop
  have hsign : (ds.head? == some '-') = false := by
    obtain ⟨d, ds', rfl⟩ := List.exists_cons_of_ne_nil hne
    have hd := hdigits d List.mem_cons_self
    rw [List.head?_cons, beq_eq_false_iff_ne]
    rintro h
    cases h
    exact absurd hd (by decide)
  have hempty : ds.isEmpty = false := List.isEmpty_eq_false_iff.mpr hne
  unfold numberOf
  cases negative with
  | true =>
      simp only [if_true, List.head?_cons, beq_self_eq_true, List.drop_succ_cons, List.drop_zero,
        htake, hdrop, fractionOf, exponentOf, hempty, hlead, List.isEmpty_nil, Option.isNone_none,
        Bool.not_true, Bool.or_self, Bool.false_eq_true, if_false, Bool.and_self]
  | false =>
      simp only [Bool.false_eq_true, if_false, hsign, htake, hdrop, fractionOf, exponentOf, hempty,
        hlead, List.isEmpty_nil, Option.isNone_none, Bool.not_true, Bool.or_self, Bool.and_self,
        if_true]

/-- An `int` reads back, within the digits Python converts. -/
theorem numberOf_intText (n : Int) :
    (∀ c ∈ intText n, isNumberChar c = true) ∧ intText n ≠ [] ∧
      numberOf (intText n) =
        if digitLimit < (Nat.toDigits 10 n.natAbs).length then none else some (.int n) := by
  have hdigits : ∀ c ∈ Nat.toDigits 10 n.natAbs, c.isDigit = true := fun c hc =>
    Nat.isDigit_of_mem_toDigits (by decide) le_rfl hc
  have hne : Nat.toDigits 10 n.natAbs ≠ [] := Nat.toDigits_ne_nil
  have hread := numberOf_digits hdigits hne (toDigits_lead n.natAbs) (decide (n < 0))
  rw [Nat.ofDigitChars_toDigits (by decide) le_rfl] at hread
  have htext : intText n = if decide (n < 0) = true then '-' :: Nat.toDigits 10 n.natAbs
      else Nat.toDigits 10 n.natAbs := by
    simp only [intText, decide_eq_true_eq]
  have hvalue : (if decide (n < 0) = true then -(n.natAbs : Int) else (n.natAbs : Int)) = n := by
    by_cases hn : n < 0
    · rw [if_pos (by simpa using hn)]
      omega
    · rw [if_neg (by simpa using hn)]
      omega
  rw [hvalue, ← htext] at hread
  refine ⟨fun c hc => ?_, ?_, hread⟩
  · unfold intText at hc
    split at hc
    · rcases List.mem_cons.mp hc with rfl | hc
      · decide
      · exact isNumberChar_of_isDigit (hdigits c hc)
    · exact isNumberChar_of_isDigit (hdigits c hc)
  · unfold intText
    split
    · exact List.cons_ne_nil _ _
    · exact hne

/-! ## 5. Strings read back -/

theorem hexValue_hexDigit : ∀ n < 16, hexValue (hexDigit n) = some n := by decide

/-- A written character is read. -/
theorem stringUnits_escapeChar (c : Char) (l : List Char) :
    stringUnits (escapeChar c ++ l) = (stringUnits l).map fun r => (c.toNat :: r.1, r.2) := by
  have hmap : ∀ (n : Nat) (x : Option (List Nat × List Char)),
      (do let r ← x; return (n :: r.1, r.2) : Option (List Nat × List Char)) =
        x.map fun r => (n :: r.1, r.2) := fun _ x => by cases x <;> rfl
  unfold escapeChar
  split
  · next h => subst h; exact hmap 34 _
  split
  · next h => subst h; exact hmap 92 _
  split
  · next h => subst h; exact hmap 10 _
  split
  · next h => subst h; exact hmap 13 _
  split
  · next h => subst h; exact hmap 9 _
  split
  · next h => subst h; exact hmap 8 _
  split
  · next h => subst h; exact hmap 12 _
  split
  · next h =>
    have hhigh := hexValue_hexDigit (c.toNat / 16) (by omega)
    have hlow := hexValue_hexDigit (c.toNat % 16) (by omega)
    have hzero : hexValue '0' = some 0 := rfl
    have hcode : 0 * 4096 + 0 * 256 + c.toNat / 16 * 16 + c.toNat % 16 = c.toNat := by omega
    simp only [List.cons_append, List.nil_append]
    rw [stringUnits]
    simp only [hzero, hhigh, hlow, Option.bind_eq_bind, Option.bind_some, hcode]
    exact hmap _ _
  · next hquote hback _ _ _ _ _ hcontrol =>
    rw [List.singleton_append, stringUnits, if_neg hcontrol]
    · exact hquote
    · exact fun _ _ _ _ _ h => absurd h hback
    · exact fun _ _ h => absurd h hback

theorem stringUnits_text (s : List Char) (rest : List Char) :
    stringUnits (s.flatMap escapeChar ++ '"' :: rest) = some (s.map Char.toNat, rest) := by
  induction s with
  | nil => rfl
  | cons c s ih =>
      rw [List.flatMap_cons, List.append_assoc, stringUnits_escapeChar, ih]
      rfl

/-- A character is no surrogate. -/
theorem toNat_not_surrogate (c : Char) : isHigh c.toNat = false ∧ isLow c.toNat = false := by
  have hvalid : c.toNat < 0xd800 ∨ 0xdfff < c.toNat ∧ c.toNat < 0x110000 := c.valid
  unfold isHigh isLow
  simp only [Bool.and_eq_false_iff, decide_eq_false_iff_not]
  omega

theorem unitChar_toNat (c : Char) : unitChar c.toNat = c := by
  obtain ⟨hhigh, hlow⟩ := toNat_not_surrogate c
  unfold unitChar
  rw [hhigh, hlow, if_neg (by decide)]
  exact Char.ofNat_toNat c

theorem unitsText_chars : ∀ s : List Char, unitsText (s.map Char.toNat) = s
  | [] => rfl
  | [c] => congrArg (fun c => [c]) (unitChar_toNat c)
  | c :: d :: s => by
      have ih := unitsText_chars (d :: s)
      rw [List.map_cons, List.map_cons, unitsText, (toNat_not_surrogate c).1, Bool.false_and,
        if_neg (by decide), unitChar_toNat]
      rw [List.map_cons] at ih
      rw [ih]

/-- **A string reads back.** -/
theorem read_string (s : String) (rest : List Char) :
    ∃ l, stringText s.toList ++ rest = '"' :: l ∧
      (stringUnits l).map (fun r => (String.ofList (unitsText r.1), r.2)) = some (s, rest) := by
  refine ⟨s.toList.flatMap escapeChar ++ '"' :: rest, by simp [stringText], ?_⟩
  rw [stringUnits_text, Option.map_some, unitsText_chars]
  simp

/-! ## 6. Values read back -/

mutual
/-- Every number in a value is finite. -/
def finiteNumbers : Json → Bool
  | .float x => x.isFinite
  | .arr items => finiteItems items
  | .obj fields => finiteFields fields
  | _ => true
def finiteItems : List Json → Bool
  | [] => true
  | v :: items => finiteNumbers v && finiteItems items
def finiteFields : List (String × Json) → Bool
  | [] => true
  | (_, v) :: fields => finiteNumbers v && finiteFields fields
end

mutual
/-- A value as Python holds it: its integers have no more digits than are converted, its floats are
    doubles, and the keys of an object are distinct. -/
def Writable : Json → Prop
  | .int n => (Nat.toDigits 10 n.natAbs).length ≤ digitLimit
  | .float (.finite q) => nearestDouble q = .finite q
  | .arr items => WritableItems items
  | .obj fields => (fields.map Prod.fst).Nodup ∧ WritableFields fields
  | _ => True
def WritableItems : List Json → Prop
  | [] => True
  | v :: items => Writable v ∧ WritableItems items
def WritableFields : List (String × Json) → Prop
  | [] => True
  | (_, v) :: fields => Writable v ∧ WritableFields fields
end

mutual
def decWritable : (v : Json) → Decidable (Writable v)
  | .int n => inferInstanceAs (Decidable ((Nat.toDigits 10 n.natAbs).length ≤ digitLimit))
  | .float (.finite q) => inferInstanceAs (Decidable (nearestDouble q = .finite q))
  | .arr items => decWritableItems items
  | .obj fields => @instDecidableAnd _ _ inferInstance (decWritableFields fields)
  | .null | .bool _ | .str _ | .float (.inf _) | .float .nan => .isTrue trivial
def decWritableItems : (items : List Json) → Decidable (WritableItems items)
  | [] => .isTrue trivial
  | v :: items => @instDecidableAnd _ _ (decWritable v) (decWritableItems items)
def decWritableFields : (fields : List (String × Json)) → Decidable (WritableFields fields)
  | [] => .isTrue trivial
  | (_, v) :: fields => @instDecidableAnd _ _ (decWritable v) (decWritableFields fields)
end

instance : DecidablePred Writable := decWritable

/-- An assignment to a new key comes last. -/
theorem set_of_new : ∀ (d : Fields) {k : String} (v : Json), k ∉ d.map Prod.fst →
    Fields.set d k v = d ++ [(k, v)]
  | [], _, _, _ => rfl
  | (k', w) :: d, k, v, h => by
      have hne : k' ≠ k := fun he => h (by simp [he])
      rw [Fields.set, if_neg hne, set_of_new d v fun hm => h (List.mem_cons_of_mem _ hm)]
      rfl

/-- Distinct keys are kept in order. -/
theorem pairsDict_nodup {fields : List (String × Json)} (h : (fields.map Prod.fst).Nodup) :
    pairsDict fields = fields := by
  have hfrom : ∀ (fields d : List (String × Json)), ((d ++ fields).map Prod.fst).Nodup →
      fields.foldl (fun d e => Fields.set d e.1 e.2) d = d ++ fields := by
    intro fields
    induction fields with
    | nil => exact fun d _ => (List.append_nil d).symm
    | cons e fields ih =>
        intro d hd
        have hnew : e.1 ∉ d.map Prod.fst := fun hm => by
          rw [List.map_append, List.nodup_append] at hd
          exact hd.2.2 _ hm _ (by simp) rfl
        rw [List.foldl_cons, set_of_new d _ hnew, ih _ (by simpa using hd)]
        simp
  exact hfrom fields [] h

section Read

variable {gap : List Char} {repr : Rat → List Char}

/-- Whitespace between tokens. -/
def Blank (gap : List Char) : Prop := ∀ c ∈ gap, c ∈ [' ', '\t', '\n', '\r']

/-- No value starts like the end of a list or like whitespace. -/
theorem dumps_cons (hrepr : ReprReads repr) {v : Json} (hw : Writable v) :
    ∃ c l, dumpsWith gap repr v = c :: l ∧ c ∉ [']', '}', ' ', '\t', '\n', '\r'] := by
  have hnumber : ∀ {t : List Char}, t ≠ [] → (∀ c ∈ t, isNumberChar c = true) →
      ∃ c l, t = c :: l ∧ c ∉ [']', '}', ' ', '\t', '\n', '\r'] := by
    intro t hne ht
    obtain ⟨c, l, rfl⟩ := List.exists_cons_of_ne_nil hne
    have hc := isNumberChar_head (ht c List.mem_cons_self)
    simp only [List.mem_cons, List.not_mem_nil, or_false, not_or] at hc ⊢
    exact ⟨c, l, rfl, hc.2.2.1, hc.2.2.2.2.1, hc.2.2.2.2.2.2.2.2⟩
  cases v with
  | null => exact ⟨_, _, by rw [dumpsWith]; rfl, by decide⟩
  | bool b => cases b <;> exact ⟨_, _, by rw [dumpsWith]; rfl, by decide⟩
  | int n =>
      rw [dumpsWith]
      exact hnumber (numberOf_intText n).2.1 (numberOf_intText n).1
  | float x =>
      rw [dumpsWith]
      cases x with
      | finite q =>
          obtain ⟨hread, hchars⟩ := hrepr q (by rwa [Writable] at hw)
          refine hnumber (fun hnil => ?_) hchars
          rw [floatText] at hnil
          rw [hnil] at hread
          cases hread
      | inf b => cases b <;> exact ⟨_, _, by rw [floatText], by decide⟩
      | nan => exact ⟨_, _, by rw [floatText], by decide⟩
  | str s => exact ⟨_, _, by rw [dumpsWith, stringText], by decide⟩
  | arr items => cases items <;> exact ⟨_, _, by rw [dumpsWith], by decide⟩
  | obj fields =>
      cases fields with
      | nil => exact ⟨_, _, by rw [dumpsWith], by decide⟩
      | cons e fields => exact ⟨_, _, by rw [dumpsWith], by decide⟩

theorem skipSpace_of_head {c : Char} (h : c ∉ [' ', '\t', '\n', '\r']) (l : List Char) :
    skipSpace (c :: l) = c :: l := by
  unfold skipSpace
  rw [List.dropWhile_cons_of_neg (by simpa using h)]

theorem skipSpace_gap (hgap : Blank gap) (l : List Char) : skipSpace (gap ++ l) = skipSpace l :=
  List.dropWhile_append_of_pos fun c hc => List.contains_iff_mem.mpr (hgap c hc)

/-- A value behind a separator is found behind the gap. -/
theorem skipSpace_dumps (hgap : Blank gap) (hrepr : ReprReads repr) {v : Json} (hw : Writable v)
    (l : List Char) :
    skipSpace (dumpsWith gap repr v ++ l) = dumpsWith gap repr v ++ l ∧
      skipSpace (gap ++ (dumpsWith gap repr v ++ l)) = dumpsWith gap repr v ++ l := by
  obtain ⟨c, t, ht, hc⟩ := dumps_cons hrepr hw
  have hskip : skipSpace (dumpsWith gap repr v ++ l) = dumpsWith gap repr v ++ l := by
    rw [ht]
    exact skipSpace_of_head (fun hm => hc (by simp only [List.mem_cons] at hm ⊢; tauto)) _
  exact ⟨hskip, (skipSpace_gap hgap _).trans hskip⟩

theorem stops_of_head {c : Char} (h : isNumberChar c = false) (l : List Char) : Stops (c :: l) := by
  rintro d hd
  cases hd
  exact h

theorem dumpsItems_stops (items : List Json) (rest : List Char) :
    Stops (dumpsItems gap repr items ++ rest) := by
  cases items <;> (rw [dumpsItems]; exact stops_of_head (by decide) _)

theorem dumpsFields_stops (fields : List (String × Json)) (rest : List Char) :
    Stops (dumpsFields gap repr fields ++ rest) := by
  cases fields <;> (rw [dumpsFields]; exact stops_of_head (by decide) _)

/-- A field is read where its value is. -/
theorem read_field (hgap : Blank gap) (hrepr : ReprReads repr) {k : String} {v : Json}
    (hw : Writable v) {rest : List Char} {fuel : Nat}
    (hv : readValue fuel (dumpsWith gap repr v ++ rest) =
      if finiteNumbers v then some (v, rest) else none) :
    readField (fuel + 1) (stringText k.toList ++ ':' :: gap ++ dumpsWith gap repr v ++ rest) =
      if finiteNumbers v then some ((k, v), rest) else none := by
  obtain ⟨l, hl, hread⟩ := read_string k (':' :: gap ++ dumpsWith gap repr v ++ rest)
  obtain ⟨r, hr, hk⟩ := Option.map_eq_some_iff.mp hread
  obtain ⟨hkey, hrest⟩ := Prod.mk.inj hk
  have htext : stringText k.toList ++ ':' :: gap ++ dumpsWith gap repr v ++ rest = '"' :: l := by
    rw [← hl]
    simp only [List.append_assoc]
  have hcolon : skipSpace r.2 = ':' :: (gap ++ (dumpsWith gap repr v ++ rest)) := by
    rw [hrest, List.append_assoc]
    exact skipSpace_of_head (by decide) _
  rw [htext, readField, hr]
  simp only [Option.bind_eq_bind, Option.bind_some, hcolon,
    (skipSpace_dumps hgap hrepr hw rest).2, hv, hkey]
  split <;> rfl

/-- A list with a first item. -/
theorem readValue_items {c : Char} (hc : c ∉ [']', '}', ' ', '\t', '\n', '\r']) (t : List Char)
    (fuel : Nat) : readValue (fuel + 1) ('[' :: c :: t) =
      (readValue fuel (c :: t)).bind fun v =>
        (readItems fuel v.2).map fun items => (.arr (v.1 :: items.1), items.2) := by
  have hskip : skipSpace (c :: t) = c :: t :=
    skipSpace_of_head (fun hm => hc (by simp only [List.mem_cons] at hm ⊢; tauto)) t
  rw [readValue]
  simp only [if_neg (show ¬ '[' = '"' by decide), if_true, hskip]
  split
  · next heq =>
    cases heq
    exact absurd (by decide) hc
  · cases hv : readValue fuel (c :: t) with
    | none => rfl
    | some v => cases hi : readItems fuel v.2 <;> simp [hi]

/-- An object with a first field. -/
theorem readValue_fields (l : List Char) (fuel : Nat) : readValue (fuel + 1) ('{' :: '"' :: l) =
    (readField fuel ('"' :: l)).bind fun e =>
      (readFields fuel e.2).map fun fields => (.obj (pairsDict (e.1 :: fields.1)), fields.2) := by
  have hskip : skipSpace ('"' :: l) = '"' :: l := skipSpace_of_head (by decide) l
  rw [readValue]
  simp only [if_neg (show ¬ '{' = '"' by decide), if_neg (show ¬ '{' = '[' by decide), if_true, hskip]
  split
  · next heq => cases heq
  · cases he : readField fuel ('"' :: l) with
    | none => rfl
    | some e => cases hf : readFields fuel e.2 <;> simp [hf]

/-- Fuel for the text of a value is fuel for a turn. -/
theorem dumps_fuel (hrepr : ReprReads repr) {v : Json} (hw : Writable v) {fuel : Nat}
    (h : (dumpsWith gap repr v).length ≤ fuel) : ∃ f, fuel = f + 1 := by
  obtain ⟨c, l, hl, -⟩ := dumps_cons hrepr hw
  rw [hl, List.length_cons] at h
  exact ⟨fuel - 1, by omega⟩

mutual
/-- **The text of a value reads back as the value**, or is no JSON where a number is not finite. -/
theorem read_dumps (hgap : Blank gap) (hrepr : ReprReads repr) : ∀ (v : Json), Writable v →
    ∀ (rest : List Char), Stops rest → ∀ fuel, (dumpsWith gap repr v).length ≤ fuel →
      readValue fuel (dumpsWith gap repr v ++ rest) = if finiteNumbers v then some (v, rest) else none
  | .null, hw, rest, _, fuel, h => by
      obtain ⟨f, rfl⟩ := dumps_fuel hrepr hw h
      rw [dumpsWith]
      rfl
  | .bool b, hw, rest, _, fuel, h => by
      obtain ⟨f, rfl⟩ := dumps_fuel hrepr hw h
      cases b <;> (rw [dumpsWith]; rfl)
  | .int n, hw, rest, hrest, fuel, h => by
      obtain ⟨f, rfl⟩ := dumps_fuel hrepr hw h
      obtain ⟨hchars, hne, hread⟩ := numberOf_intText n
      rw [Writable] at hw
      rw [if_neg (not_lt.mpr hw)] at hread
      rw [dumpsWith, readValue_number hne hchars hrest, hread]
      rfl
  | .float x, hw, rest, hrest, fuel, h => by
      obtain ⟨f, rfl⟩ := dumps_fuel hrepr hw h
      rw [dumpsWith]
      cases x with
      | finite q =>
          obtain ⟨hread, hchars⟩ := hrepr q (by rwa [Writable] at hw)
          have hne : repr q ≠ [] := fun hnil => by
            rw [hnil] at hread
            cases hread
          rw [floatText, readValue_number hne hchars hrest, hread]
          rfl
      | inf b =>
          -- the sign alone is no number
          cases b <;> rfl
      | nan => rfl
  | .str s, hw, rest, _, fuel, h => by
      obtain ⟨f, rfl⟩ := dumps_fuel hrepr hw h
      obtain ⟨l, hl, hread⟩ := read_string s rest
      obtain ⟨r, hr, hk⟩ := Option.map_eq_some_iff.mp hread
      obtain ⟨hkey, hrest⟩ := Prod.mk.inj hk
      rw [dumpsWith, hl, readValue]
      simp only [if_true, hr, Option.map_some, hkey, hrest]
      rfl
  | .arr [], hw, rest, _, fuel, h => by
      obtain ⟨f, rfl⟩ := dumps_fuel hrepr hw h
      rw [dumpsWith]
      rfl
  | .arr (v :: items), hw, rest, _, fuel, h => by
      obtain ⟨f, rfl⟩ := dumps_fuel hrepr hw h
      rw [Writable, WritableItems] at hw
      rw [dumpsWith, List.length_cons, List.length_append] at h
      have hv := read_dumps hgap hrepr v hw.1 (dumpsItems gap repr items ++ rest)
        (dumpsItems_stops items rest) f (by omega)
      have hitems := read_dumpsItems hgap hrepr items hw.2 rest f (by omega)
      obtain ⟨c, t, ht, hc⟩ := dumps_cons hrepr hw.1
      rw [dumpsWith, List.cons_append, List.append_assoc]
      rw [ht, List.cons_append] at hv ⊢
      rw [readValue_items hc, hv, finiteNumbers, finiteItems]
      cases finiteNumbers v
      · rfl
      · simp only [if_true, Option.bind_some, hitems, Bool.true_and]
        split <;> rfl
  | .obj [], hw, rest, _, fuel, h => by
      obtain ⟨f, rfl⟩ := dumps_fuel hrepr hw h
      rw [dumpsWith]
      rfl
  | .obj ((k, v) :: fields), hw, rest, _, fuel, h => by
      obtain ⟨f, rfl⟩ := dumps_fuel hrepr hw h
      rw [Writable, WritableFields] at hw
      rw [dumpsWith] at h
      simp only [List.length_cons, List.length_append] at h
      obtain ⟨g, rfl⟩ := dumps_fuel hrepr hw.2.1 (show (dumpsWith gap repr v).length ≤ f by omega)
      have hv := read_dumps hgap hrepr v hw.2.1 (dumpsFields gap repr fields ++ rest)
        (dumpsFields_stops fields rest) g (by omega)
      have hfield := read_field (k := k) hgap hrepr hw.2.1 hv
      have hfields := read_dumpsFields hgap hrepr fields hw.2.2 rest (g + 1) (by omega)
      have htext : dumpsWith gap repr (.obj ((k, v) :: fields)) ++ rest =
          '{' :: (stringText k.toList ++ ':' :: gap ++ dumpsWith gap repr v ++
            (dumpsFields gap repr fields ++ rest)) := by
        rw [dumpsWith, List.cons_append, List.append_assoc]
      obtain ⟨l, hl⟩ : ∃ l, stringText k.toList ++ ':' :: gap ++ dumpsWith gap repr v ++
          (dumpsFields gap repr fields ++ rest) = '"' :: l := ⟨_, rfl⟩
      rw [htext]
      rw [hl] at hfield ⊢
      rw [readValue_fields, hfield, finiteNumbers, finiteFields]
      cases finiteNumbers v
      · rfl
      · simp only [if_true, Option.bind_some, hfields, Bool.true_and]
        split
        · rw [Option.map_some, pairsDict_nodup hw.1]
        · rfl
theorem read_dumpsItems (hgap : Blank gap) (hrepr : ReprReads repr) : ∀ (items : List Json),
    WritableItems items → ∀ (rest : List Char) (fuel : Nat),
      (dumpsItems gap repr items).length ≤ fuel →
      readItems fuel (dumpsItems gap repr items ++ rest) =
        if finiteItems items then some (items, rest) else none
  | [], _, rest, fuel, h => by
      rw [dumpsItems] at h ⊢
      obtain ⟨f, rfl⟩ : ∃ f, fuel = f + 1 := ⟨fuel - 1, by simp at h; omega⟩
      rfl
  | v :: items, hw, rest, fuel, h => by
      rw [WritableItems] at hw
      rw [dumpsItems] at h
      simp only [List.length_cons, List.length_append] at h
      obtain ⟨f, rfl⟩ : ∃ f, fuel = f + 1 := ⟨fuel - 1, by omega⟩
      have hv := read_dumps hgap hrepr v hw.1 (dumpsItems gap repr items ++ rest)
        (dumpsItems_stops items rest) f (by omega)
      have hitems := read_dumpsItems hgap hrepr items hw.2 rest f (by omega)
      have hcomma : skipSpace (dumpsItems gap repr (v :: items) ++ rest) =
          ',' :: (gap ++ (dumpsWith gap repr v ++ (dumpsItems gap repr items ++ rest))) := by
        rw [dumpsItems, List.append_assoc, List.append_assoc]
        exact skipSpace_of_head (by decide) _
      rw [readItems, hcomma]
      simp only [(skipSpace_dumps hgap hrepr hw.1 _).2, hv, finiteItems]
      by_cases hfin : finiteNumbers v = true
      · simp only [hfin, if_true, Option.bind_eq_bind, Option.bind_some, hitems, Bool.true_and]
        split <;> rfl
      · simp only [hfin, Bool.false_eq_true, if_false, Bool.false_and]
        rfl
theorem read_dumpsFields (hgap : Blank gap) (hrepr : ReprReads repr) :
    ∀ (fields : List (String × Json)), WritableFields fields → ∀ (rest : List Char) (fuel : Nat),
      (dumpsFields gap repr fields).length ≤ fuel →
      readFields fuel (dumpsFields gap repr fields ++ rest) =
        if finiteFields fields then some (fields, rest) else none
  | [], _, rest, fuel, h => by
      rw [dumpsFields] at h ⊢
      obtain ⟨f, rfl⟩ : ∃ f, fuel = f + 1 := ⟨fuel - 1, by simp at h; omega⟩
      rfl
  | (k, v) :: fields, hw, rest, fuel, h => by
      rw [WritableFields] at hw
      rw [dumpsFields] at h
      simp only [List.length_cons, List.length_append] at h
      obtain ⟨g, rfl⟩ : ∃ g, fuel = g + 2 := ⟨fuel - 2, by omega⟩
      have hv := read_dumps hgap hrepr v hw.1 (dumpsFields gap repr fields ++ rest)
        (dumpsFields_stops fields rest) g (by omega)
      have hfield := read_field (k := k) hgap hrepr hw.1 hv
      have hfields := read_dumpsFields hgap hrepr fields hw.2 rest (g + 1) (by omega)
      have hcomma : skipSpace (dumpsFields gap repr ((k, v) :: fields) ++ rest) =
          ',' :: (gap ++ (stringText k.toList ++ ':' :: gap ++ dumpsWith gap repr v ++
            (dumpsFields gap repr fields ++ rest))) := by
        rw [dumpsFields]
        simp only [List.append_assoc]
        exact skipSpace_of_head (by decide) _
      have hspace : skipSpace (gap ++ (stringText k.toList ++ ':' :: gap ++ dumpsWith gap repr v ++
          (dumpsFields gap repr fields ++ rest))) =
            stringText k.toList ++ ':' :: gap ++ dumpsWith gap repr v ++
              (dumpsFields gap repr fields ++ rest) := by
        have hquote : '"' ∉ [' ', '\t', '\n', '\r'] := by decide
        rw [skipSpace_gap hgap]
        simp only [stringText, List.cons_append]
        exact skipSpace_of_head hquote _
      rw [readFields, hcomma]
      simp only [hspace, hfield, finiteFields]
      by_cases hfin : finiteNumbers v = true
      · simp only [hfin, if_true, Option.bind_eq_bind, Option.bind_some, hfields, Bool.true_and]
        split <;> rfl
      · simp only [hfin, Bool.false_eq_true, if_false, Bool.false_and]
        rfl
end

/-- **`json.loads` undoes `json.dumps`** where every number is finite, and refuses its text where
    one is not, whatever whitespace is behind the separators. -/
theorem loads_dumpsWith (hgap : Blank gap) (hrepr : ReprReads repr) {v : Json} (hw : Writable v) :
    loads (dumpsWith gap repr v) = if finiteNumbers v then some v else none := by
  have hread := read_dumps hgap hrepr v hw [] (fun _ h => by cases h) _ le_rfl
  have hskip := (skipSpace_dumps hgap hrepr hw []).1
  rw [List.append_nil] at hread hskip
  unfold loads
  rw [hskip, hread]
  by_cases hfin : finiteNumbers v = true
  · rw [if_pos hfin, if_pos hfin]
    rfl
  · rw [if_neg hfin, if_neg hfin]

theorem loads_dumps (hrepr : ReprReads repr) {v : Json} (hw : Writable v) :
    loads (dumps repr v) = if finiteNumbers v then some v else none :=
  loads_dumpsWith (fun _ hc => List.mem_cons.mpr (.inl (List.mem_singleton.mp hc))) hrepr hw

end Read

end RolloutProxy
