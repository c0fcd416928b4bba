/-
  File:      RolloutProxy/Reasoning/Tokens.lean
  Subject:   THE PATTERNS OF THE REASONING SCANNER (tokenization/base.py), as matchers on the
             characters of a text.

  A text is the list of its characters, so `text[a:b]` is `(text.take b).drop a` and a pattern
  searched between two positions reads `region text a b`. Each matcher is a pattern of the source;
  the alternatives of `_REASONING_TOKENS` start with different characters or spell different tags,
  so their order does not matter.

  `str.isalnum` of a character is the Unicode database's, so it is a parameter of everything that
  reads it.
-/
import RolloutProxy.JsonText
import RolloutProxy.Lib.Dict
import RolloutProxy.Lib.Search
import Mathlib.Data.List.TakeWhile

namespace RolloutProxy.Reasoning

/-! ## 1. Tags -/

def thinkOpen : List Char := ['<', 't', 'h', 'i', 'n', 'k', '>']
def thinkClose : List Char := ['<', '/', 't', 'h', 'i', 'n', 'k', '>']
def toolOpen : List Char := ['<', 't', 'o', 'o', 'l', '_', 'c', 'a', 'l', 'l', '>']
def toolClose : List Char := ['<', '/', 't', 'o', 'o', 'l', '_', 'c', 'a', 'l', 'l', '>']
def functionClose : List Char := ['<', '/', 'f', 'u', 'n', 'c', 't', 'i', 'o', 'n', '>']
def parameterClose : List Char := ['<', '/', 'p', 'a', 'r', 'a', 'm', 'e', 't', 'e', 'r', '>']
/-- `<function=` -/
def functionHead : List Char := ['<', 'f', 'u', 'n', 'c', 't', 'i', 'o', 'n', '=']
/-- `<parameter=` -/
def parameterHead : List Char := ['<', 'p', 'a', 'r', 'a', 'm', 'e', 't', 'e', 'r', '=']

/-- The tags that are spelled out. -/
def literalTags : List (List Char) :=
  [thinkOpen, thinkClose, toolOpen, toolClose, functionClose, parameterClose]

/-- `[^<>\n]`. -/
def isNameChar (c : Char) : Bool := c != '<' && c != '>' && c != '\n'

/-- `head[^<>\n]+>`. -/
def namedTag (head l : List Char) : Option (List Char) :=
  if head.isPrefixOf l then
    let name := (l.drop head.length).takeWhile isNameChar
    match (l.drop head.length).dropWhile isNameChar with
    | '>' :: _ => if name.isEmpty then none else some (head ++ name ++ ['>'])
    | _ => none
  else none

/-- A tag at the head of `l`. -/
def tagAt (l : List Char) : Option (List Char) :=
  match literalTags.find? (·.isPrefixOf l) with
  | some t => some t
  | none => (namedTag functionHead l).or (namedTag parameterHead l)

/-! ## 2. Quotes and code delimiters -/

/-- `_PROSE_QUOTE_PAIRS`: the closing characters of an opening one. -/
def prosePairs : List (Char × List Char) :=
  [('"', ['"']), ('\'', ['\'']), ('“', ['”']), ('‘', ['’']), ('«', ['»']), ('‹', ['›']),
   ('„', ['“', '”']), ('‚', ['‘', '’']), ('「', ['」']), ('『', ['』']), ('〝', ['〞', '〟']),
   ('﹁', ['﹂']), ('﹃', ['﹄']), ('＂', ['＂']), ('＇', ['＇'])]

/-- `_PROSE_QUOTE_PAIRS.get(quote, "")`. -/
def closersOf (c : Char) : List Char := (prosePairs.lookup c).getD []

/-- `quote in _PROSE_QUOTE_PAIRS`. -/
def opensQuote (c : Char) : Bool := prosePairs.any (·.1 == c)

/-- `_PROSE_QUOTE_CHARS`. -/
def isQuote (c : Char) : Bool := prosePairs.any fun e => e.1 == c || e.2.contains c

/-- A bracket, a quote, or a run of backticks or of three tildes and more. -/
def delimiterAt : List Char → Option (List Char)
  | [] => none
  | c :: l =>
    if ['{', '}', '[', ']'].contains c || isQuote c then some [c]
    else if c == '`' then some (c :: l.takeWhile (· == '`'))
    else if c == '~' then
      let run := c :: l.takeWhile (· == '~')
      if 3 ≤ run.length then some run else none
    else none

/-- `_REASONING_TOKENS` at the head of `l`. -/
def tokenAt (l : List Char) : Option (List Char) := (tagAt l).or (delimiterAt l)

/-- `text[a:b]`. -/
def region (text : List Char) (a b : Nat) : List Char := (text.take b).drop a

/-- `_REASONING_TOKENS.search(text, pos, limit)`: the start of the match, and the marker. -/
def searchToken (text : List Char) (pos limit : Nat) : Option (Nat × List Char) :=
  searchFrom tokenAt pos (region text pos limit)

/-! ## 3. JSON -/

/-- `_JSON_OBJECT_START` at the head of `l`: the length of the match. -/
def objectStart (l : List Char) : Option Nat :=
  match l.dropWhile isSpace with
  | '{' :: _ => some ((l.takeWhile isSpace).length + 1)
  | _ => none

/-- `_JSON_STRING` behind its opening quote: the length up to the closing quote, or to the end. -/
def stringTail : List Char → Nat
  | [] => 0
  | '"' :: _ => 1
  | '\\' :: _ :: l => stringTail l + 2
  | _ :: l => stringTail l + 1

/-- `_JSON_ARGUMENT_START` at the head of `l`: the opening character, and its offset. -/
def argumentStart (l : List Char) : Option (Char × Nat) :=
  match l.dropWhile isSpace with
  | ':' :: rest =>
    match rest.dropWhile isSpace with
    | c :: _ =>
      if ['[', '{', '"'].contains c then
        some (c, (l.takeWhile isSpace).length + 1 + (rest.takeWhile isSpace).length)
      else none
    | [] => none
  | _ => none

/-- `\b` behind a word: the text goes on with no word character. -/
def wordEnds (isAlnum : Char → Bool) : List Char → Bool
  | [] => true
  | c :: _ => !(isAlnum c || c == '_')

/-- One of the words `true`, `false` and `null` at the head of `l`. -/
def jsonWord (isAlnum : Char → Bool) (l : List Char) : Bool :=
  [['t', 'r', 'u', 'e'], ['f', 'a', 'l', 's', 'e'], ['n', 'u', 'l', 'l']].any fun w =>
    w.isPrefixOf l && wordEnds isAlnum (l.drop w.length)

/-- `["{\[0-9-]`. -/
def startsValue (c : Char) : Bool :=
  c == '"' || c == '{' || c == '[' || c == '-' || c.isDigit

/-- `_JSON_STRING_FOLLOW` matches at the head of `l`. -/
def stringFollows (isAlnum : Char → Bool) (l : List Char) : Bool :=
  match l.dropWhile isSpace with
  | '}' :: _ => true
  | ']' :: _ => true
  | c :: rest =>
    (c == ':' || c == ',') &&
      match rest.dropWhile isSpace with
      | d :: rest' => startsValue d || jsonWord isAlnum (d :: rest')
      | [] => false
  | [] => false

/-- `_json_header_end` from position `pos`, over the text up to the limit. -/
def jsonHeaderEnd : Nat → List Char → Nat × Bool
  | pos, [] => (pos, false)
  | pos, '"' :: _ => (pos + 1, true)
  | pos, '\\' :: _ :: l => jsonHeaderEnd (pos + 2) l
  | pos, c :: l =>
    if thinkOpen.isPrefixOf (c :: l) || thinkClose.isPrefixOf (c :: l) then (pos, false)
    else jsonHeaderEnd (pos + 1) l

/-- `json.loads` of a string literal behind its opening quote, as code points; `none` where it
    raises `ValueError`. Escaped surrogates stay apart: a key is only compared with ASCII names. -/
def loadsKey : List Char → Option (List Nat)
  | [] => none
  | '"' :: l => if l.isEmpty then some [] else none
  | '\\' :: 'u' :: a :: b :: c :: d :: l => do
    let n := (← hexValue a) * 4096 + (← hexValue b) * 256 + (← hexValue c) * 16 + (← hexValue d)
    let rest ← loadsKey l
    return n :: rest
  | '\\' :: e :: l => do
    let n ← escapeValue e
    let rest ← loadsKey l
    return n :: rest
  | c :: l => if c.toNat < 32 then none else (loadsKey l).map (c.toNat :: ·)

/-- `key in ("arguments", "parameters")`. -/
def isArgumentsKey (key : List Nat) : Bool :=
  [['a', 'r', 'g', 'u', 'm', 'e', 'n', 't', 's'],
    ['p', 'a', 'r', 'a', 'm', 'e', 't', 'e', 'r', 's']].any fun w => w.map Char.toNat == key

/-! ## 4. XML values -/

def xmlClosers : List (List Char) := [parameterClose, functionClose, toolClose]

/-- `_XML_VALUE_END.search`: the start of the first closer. -/
def xmlValueEnd (text : List Char) (pos limit : Nat) : Option Nat :=
  (searchFrom (fun l => if xmlClosers.any (·.isPrefixOf l) then some () else none) pos
    (region text pos limit)).map Prod.fst

/-- `_xml_reasoning_value_end` from position `pos`, over the text up to the limit. -/
def xmlReasoningValueEnd : Nat → Nat → Option Nat → List Char → Nat
  | pos, _, boundary, [] => boundary.getD pos
  | pos, depth, boundary, c :: l =>
    if thinkOpen.isPrefixOf (c :: l) then xmlReasoningValueEnd (pos + 1) (depth + 1) boundary l
    else if thinkClose.isPrefixOf (c :: l) then
      if depth ≠ 0 then xmlReasoningValueEnd (pos + 1) (depth - 1) boundary l
      else xmlReasoningValueEnd (pos + 1) depth (some pos) l
    else if toolOpen.isPrefixOf (c :: l) then
      match boundary with
      | some b => b
      | none => xmlReasoningValueEnd (pos + 1) depth none l
    else if xmlClosers.any (·.isPrefixOf (c :: l)) then pos
    else xmlReasoningValueEnd (pos + 1) depth boundary l

/-! ## 5. What a token is -/

/-- Every tag is a `<` and characters other than `<`. -/
theorem literalTags_tail : ∀ t ∈ literalTags, t ≠ [] ∧ '<' ∉ t.tail := by decide

theorem namedTag_spec {head l m : List Char} (hh : '<' ∉ head.tail) (hne : head ≠ [])
    (h : namedTag head l = some m) : m ≠ [] ∧ m <+: l ∧ '<' ∉ m.tail := by
  unfold namedTag at h
  split at h
  · next hp =>
    simp only at h
    split at h
    · next rest hr =>
      split at h
      · cases h
      · cases h
        obtain ⟨tail, rfl⟩ := List.isPrefixOf_iff_prefix.mp hp
        simp only [List.drop_left] at hr ⊢
        refine ⟨by simp [hne], ⟨rest, ?_⟩, ?_⟩
        · conv_rhs => rw [← List.takeWhile_append_dropWhile (p := isNameChar) (l := tail), hr]
          simp
        · rw [List.append_assoc, List.tail_append_of_ne_nil hne, List.mem_append, List.mem_append]
          rintro (hm | hm | hm)
          · exact hh hm
          · have := List.mem_takeWhile_imp hm
            simp [isNameChar] at this
          · simp at hm
    · cases h
  · cases h

theorem tagAt_spec {l m : List Char} (h : tagAt l = some m) :
    m ≠ [] ∧ m <+: l ∧ '<' ∉ m.tail := by
  unfold tagAt at h
  split at h
  · next t ht =>
    cases h
    obtain ⟨hne, htail⟩ := literalTags_tail m (List.mem_of_find?_eq_some ht)
    have hp : m.isPrefixOf l = true := 
      List.find?_some (p := fun t : List Char => t.isPrefixOf l) ht
    exact ⟨hne, List.isPrefixOf_iff_prefix.mp hp, htail⟩
  · cases hf : namedTag functionHead l with
    | some t =>
        rw [hf] at h
        cases h
        exact namedTag_spec (by decide) (by decide) hf
    | none =>
        rw [hf] at h
        exact namedTag_spec (by decide) (by decide) h

theorem takeWhile_replicates {c : Char} (l : List Char) :
    l.takeWhile (· == c) <+: l ∧ ∀ x ∈ l.takeWhile (· == c), x = c :=
  ⟨List.takeWhile_prefix _, fun x hx => by simpa using List.mem_takeWhile_imp hx⟩

theorem delimiterAt_spec {l m : List Char} (h : delimiterAt l = some m) :
    m ≠ [] ∧ m <+: l ∧ '<' ∉ m.tail := by
  cases l with
  | nil => cases h
  | cons c l =>
      simp only [delimiterAt] at h
      split at h
      · cases h
        exact ⟨by simp, ⟨l, rfl⟩, by simp⟩
      · split at h
        · cases h
          obtain ⟨hp, hx⟩ := takeWhile_replicates (c := '`') l
          exact ⟨by simp, (List.prefix_cons_inj c).mpr hp,
            fun hm => absurd (hx '<' hm) (by decide)⟩
        · split at h
          · split at h
            · cases h
              obtain ⟨hp, hx⟩ := takeWhile_replicates (c := '~') l
              exact ⟨by simp, (List.prefix_cons_inj c).mpr hp,
                fun hm => absurd (hx '<' hm) (by decide)⟩
            · cases h
          · cases h

/-- **A token is read at the head of the text**, and holds no second `<`. -/
theorem tokenAt_spec {l m : List Char} (h : tokenAt l = some m) :
    m ≠ [] ∧ m <+: l ∧ '<' ∉ m.tail := by
  unfold tokenAt at h
  cases ht : tagAt l with
  | some t =>
      rw [ht] at h
      cases h
      exact tagAt_spec ht
  | none =>
      rw [ht] at h
      exact delimiterAt_spec h

/-- A tag that is spelled out is read where it stands. -/
theorem tokenAt_literal {t l : List Char} (ht : t ∈ literalTags) (h : t <+: l) :
    tokenAt l = some t := by
  have hfind : literalTags.find? (·.isPrefixOf l) = some t := by
    obtain ⟨rest, rfl⟩ := h
    simp only [literalTags, List.mem_cons, List.not_mem_nil, or_false] at ht
    rcases ht with rfl | rfl | rfl | rfl | rfl | rfl <;> rfl
  unfold tokenAt tagAt
  rw [hfind]
  rfl

theorem region_drop (text : List Char) (a b k : Nat) :
    (region text a b).drop k = region text (a + k) b := by
  unfold region
  rw [List.drop_drop]

theorem region_length (text : List Char) (a b : Nat) :
    (region text a b).length = min b text.length - a := by
  unfold region
  rw [List.length_drop, List.length_take]

theorem region_split {text : List Char} {a b c : Nat} (hab : a ≤ b) (hbc : b ≤ c) :
    region text a c = region text a b ++ region text b c := by
  unfold region
  have hsplit : text.take c = text.take b ++ (text.take c).drop b := by
    conv_lhs => rw [← List.take_append_drop b (text.take c)]
    rw [List.take_take, min_eq_left hbc]
  conv_lhs => rw [hsplit]
  rcases le_or_gt b text.length with hb | hb
  · rw [List.drop_append_of_le_length (by rw [List.length_take]; omega)]
  · have hnil : (text.take c).drop b = [] :=
      List.drop_eq_nil_of_le (by rw [List.length_take]; omega)
    rw [hnil, List.append_nil, List.append_nil]

theorem drop_split {text : List Char} {a b : Nat} (hab : a ≤ b) :
    text.drop a = region text a b ++ text.drop b := by
  unfold region
  conv_lhs => rw [← List.take_append_drop b text]
  rcases le_or_gt b text.length with hb | hb
  · rw [List.drop_append_of_le_length (by rw [List.length_take]; omega)]
  · rw [List.drop_eq_nil_of_le (show text.length ≤ b by omega), List.append_nil, List.append_nil]

/-- What a search finds, and that nothing stands before it. -/
theorem searchToken_some {text : List Char} {pos limit start : Nat} {m : List Char}
    (h : searchToken text pos limit = some (start, m)) :
    pos ≤ start ∧ start < min limit text.length ∧ tokenAt (region text start limit) = some m ∧
      ∀ k, pos ≤ k → k < start → tokenAt (region text k limit) = none := by
  obtain ⟨h₁, h₂, h₃, h₄⟩ := searchFrom_some h
  rw [region_length] at h₂
  rw [region_drop, Nat.add_sub_cancel' h₁] at h₃
  refine ⟨h₁, by omega, h₃, fun k hk hk' => ?_⟩
  have := h₄ k hk hk'
  rwa [region_drop, Nat.add_sub_cancel' hk] at this

theorem searchToken_none {text : List Char} {pos limit : Nat}
    (h : searchToken text pos limit = none) :
    ∀ k, pos ≤ k → k < min limit text.length → tokenAt (region text k limit) = none := by
  intro k hk hk'
  have := searchFrom_none h (k - pos) (by rw [region_length]; omega)
  rwa [region_drop, Nat.add_sub_cancel' hk] at this

end RolloutProxy.Reasoning
