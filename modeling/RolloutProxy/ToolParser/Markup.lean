/-
  File:      RolloutProxy/ToolParser/Markup.lean
  Subject:   READING TOOL-CALL MARKUP (tokenization/tool_parser.py): the string searches of the
             parsers, `_split_sections`, and the block loop of `BaseToolParser.parse`.

  A parser of one dialect is a function on the body of a block, which may raise what the JSON
  library raises; the loop around it is the same for all. Both loops move a cursor forward, so the
  length of the text bounds their turns.
-/
import RolloutProxy.Reasoning.Tokens
import RolloutProxy.Json

namespace RolloutProxy.ToolParser

open Reasoning (region)

/-! ## 1. String searches -/

/-- `text.find(pat, pos)`. -/
def find (pat text : List Char) (pos : Nat) : Option Nat :=
  (searchFrom (fun l => if pat.isPrefixOf l then some () else none) pos (text.drop pos)).map Prod.fst

/-- `text.find(pat, a, b)`. -/
def findIn (pat text : List Char) (a b : Nat) : Option Nat := find pat (text.take b) a

/-- `text.rfind(pat, a, b)`. -/
def rfind (pat text : List Char) (a b : Nat) : Option Nat :=
  ((List.range b).filter fun i => decide (a ≤ i) && pat.isPrefixOf (region text i b)).getLast?

/-- `text.partition(sep)`; `none` for a text without the separator. -/
def partition (sep text : List Char) : Option (List Char × List Char) :=
  (find sep text 0).map fun i => (text.take i, text.drop (i + sep.length))

/-- `text.lstrip()`. -/
def lstrip (text : List Char) : List Char := text.dropWhile isSpace

/-- `text.removeprefix("\n").removesuffix("\n")`. -/
def trimNewlines (text : List Char) : List Char :=
  let text := match text with
    | '\n' :: rest => rest
    | _ => text
  match text.getLast? with
  | some '\n' => text.dropLast
  | _ => text

/-- Where `find` stops: an occurrence, and none before it. -/
theorem find_some {pat text : List Char} {pos i : Nat} (h : find pat text pos = some i) :
    pos ≤ i ∧ pat <+: text.drop i ∧ ∀ k, pos ≤ k → k < i → ¬ pat <+: text.drop k := by
  obtain ⟨p, hp, rfl⟩ := Option.map_eq_some_iff.mp h
  obtain ⟨hle, -, hm, hbefore⟩ := searchFrom_some hp
  have hat : ∀ k, pos ≤ k → (text.drop pos).drop (k - pos) = text.drop k := fun k hk => by
    rw [List.drop_drop, Nat.add_sub_cancel' hk]
  refine ⟨hle, ?_, fun k hk hlt hpre => ?_⟩
  · rw [hat _ hle] at hm
    split at hm
    · next hpre => exact List.isPrefixOf_iff_prefix.mp hpre
    · cases hm
  · have hn := hbefore k hk hlt
    rw [hat k hk, if_pos (List.isPrefixOf_iff_prefix.mpr hpre)] at hn
    cases hn

theorem find_none {pat text : List Char} {pos : Nat} (hne : pat ≠ [])
    (h : find pat text pos = none) : ∀ k, pos ≤ k → ¬ pat <+: text.drop k := by
  intro k hk hpre
  have hlen : k < text.length := by
    by_contra hge
    rw [List.drop_eq_nil_of_le (not_lt.mp hge)] at hpre
    exact hne (List.prefix_nil.mp hpre)
  have hn := searchFrom_none (Option.map_eq_none_iff.mp h) (k - pos)
    (by rw [List.length_drop]; omega)
  rw [List.drop_drop, Nat.add_sub_cancel' hk, if_pos (List.isPrefixOf_iff_prefix.mpr hpre)] at hn
  cases hn

/-- The first occurrence is what `find` returns. -/
theorem find_eq {pat text : List Char} {pos i : Nat} (hne : pat ≠ []) (hi : pos ≤ i)
    (hat : pat <+: text.drop i) (hbefore : ∀ k, pos ≤ k → k < i → ¬ pat <+: text.drop k) :
    find pat text pos = some i := by
  cases h : find pat text pos with
  | none => exact absurd hat (find_none hne h i hi)
  | some j =>
      obtain ⟨hj, hpre, hfirst⟩ := find_some h
      rcases Nat.lt_trichotomy j i with hlt | rfl | hlt
      · exact absurd hpre (hbefore j hj hlt)
      · rfl
      · exact absurd hat (hfirst i hi hlt)

/-- Where `rfind` stops. -/
theorem rfind_some {pat text : List Char} {a b i : Nat} (h : rfind pat text a b = some i) :
    a ≤ i ∧ i < b ∧ pat <+: region text i b := by
  have hmem := List.mem_of_getLast? h
  rw [List.mem_filter, Bool.and_eq_true, decide_eq_true_eq] at hmem
  exact ⟨hmem.2.1, List.mem_range.mp hmem.1, List.isPrefixOf_iff_prefix.mp hmem.2.2⟩

/-- An occurrence of a text lies within. -/
theorem length_le_of_at {pat text : List Char} {i : Nat} (hne : pat ≠ []) (h : pat <+: text.drop i) :
    i + pat.length ≤ text.length := by
  have hlen := h.length_le
  have hpos := List.length_pos_iff.mpr hne
  rw [List.length_drop] at hlen
  omega

/-! ## 2. Sections -/

/-- The local variables of `_split_sections`; `nameEnd` is `none` for `-1`. -/
structure Sections where
  sections : List (List Char × List Char)
  wellFormed : Bool
  gapFrom : Nat
  pos : Nat
  nameEnd : Option Nat

/-- The position of the `>` that ends a name; one found before is kept while it lies ahead. -/
def Sections.findNameEnd (s : Sections) (text : List Char) (nameStart : Nat) : Option Nat :=
  match s.nameEnd with
  | some e => if e < nameStart then find ['>'] text nameStart else some e
  | none => find ['>'] text nameStart

/-- The scan of `_split_sections`. -/
def sectionsFrom (openMarker closeMarker text : List Char) : Nat → Sections → Sections
  | 0, s => s
  | fuel + 1, s =>
    match find openMarker text s.pos with
    | none => s
    | some start =>
      let nameStart := start + openMarker.length
      match s.findNameEnd text nameStart with
      | none => s
      | some nameEnd =>
        match findIn ['\n'] text nameStart nameEnd with
        | some newline =>
          sectionsFrom openMarker closeMarker text fuel
            { s with pos := newline + 1, nameEnd := some nameEnd }
        | none =>
          let name := region text nameStart nameEnd
          if name.all isSpace then
            sectionsFrom openMarker closeMarker text fuel
              { s with pos := nameEnd + 1, nameEnd := some nameEnd }
          else
            match find closeMarker text (nameEnd + 1) with
            | none => s
            | some stop =>
              let stranded := !s.sections.isEmpty && !(region text s.gapFrom start).all isSpace
              sectionsFrom openMarker closeMarker text fuel
                { sections := s.sections ++ [(stripChars name, region text (nameEnd + 1) stop)]
                  wellFormed := s.wellFormed && !stranded
                  gapFrom := stop + closeMarker.length
                  pos := stop + closeMarker.length
                  nameEnd := some nameEnd }

/-- `_split_sections`. -/
def splitSections (text openMarker closeMarker : List Char) :
    List (List Char × List Char) × Bool :=
  let s := sectionsFrom openMarker closeMarker text (text.length + 1) ⟨[], true, 0, 0, none⟩
  let stranded := !s.sections.isEmpty && !(text.drop s.gapFrom).all isSpace
  (s.sections, s.wellFormed && !stranded)

/-! ## 3. Blocks -/

/-- What the JSON library raises. -/
inductive JsonError where
  /-- malformed text, and what `parse_constant` or `allow_nan=False` refuse -/
  | valueError
  /-- `OverflowError` of an encoder -/
  | overflowError
  /-- nesting beyond the interpreter's limit -/
  | recursionError
  deriving DecidableEq

/-- One parsed call; `arguments` is a JSON-encoded string. -/
structure ParsedCall where
  name : List Char
  arguments : List Char
  deriving DecidableEq

/-- What a dialect makes of a block: its calls (`some []`: none, markup intact), or `none` where
    the markup is damaged. -/
abbrev BlockParser := List Char → Except JsonError (Option (List ParsedCall))

/-- A block: its opener, the start of its body, its closer. -/
structure Block where
  start : Nat
  bodyStart : Nat
  stop : Nat
  deriving DecidableEq

/-- The next block behind a position. -/
def nextBlock (text : List Char) (pos : Nat) : Option Block :=
  match find Reasoning.toolOpen text pos with
  | none => none
  | some start =>
    match find Reasoning.toolClose text (start + Reasoning.toolOpen.length) with
    | none => none
    | some stop => some ⟨start, start + Reasoning.toolOpen.length, stop⟩

/-- The body of a block. -/
def Block.body (text : List Char) (b : Block) : List Char :=
  stripChars (region text b.bodyStart b.stop)

/-- The block of the innermost opener inside. -/
def Block.inner (text : List Char) (b : Block) : Option Block :=
  (rfind Reasoning.toolOpen text b.bodyStart b.stop).map fun i =>
    ⟨i, i + Reasoning.toolOpen.length, b.stop⟩

/-- A block parsed, once more from its innermost opener where it held no call. -/
def parseRetrying (parseBlock : BlockParser) (text : List Char) (b : Block) :
    Except JsonError (Block × Option (List ParsedCall)) := do
  match ← parseBlock (b.body text) with
  | some [] =>
    match b.inner text with
    | some i => return (i, ← parseBlock (i.body text))
    | none => return (b, some [])
  | r => return (b, r)

/-- `parse` behind position `pos`; `last` is the end of the last block that was consumed. -/
def parseFrom (parseBlock : BlockParser) (text : List Char) : Nat → Nat → Nat →
    Except JsonError (List Char × List ParsedCall)
  | 0, last, _ => .ok (text.drop last, [])
  | fuel + 1, last, pos =>
    match nextBlock text pos with
    | none => .ok (text.drop last, [])
    | some b => do
      let r ← parseRetrying parseBlock text b
      let stop := r.1.stop + Reasoning.toolClose.length
      match r.2 with
      | some (call :: calls) =>
        let rest ← parseFrom parseBlock text fuel stop stop
        return (region text last r.1.start ++ rest.1, call :: calls ++ rest.2)
      | _ => parseFrom parseBlock text fuel last stop

/-- `BaseToolParser.parse`. -/
def parse (parseBlock : BlockParser) (text : List Char) :
    Except JsonError (List Char × List ParsedCall) := do
  let r ← parseFrom parseBlock text text.length 0 0
  return (stripChars r.1, r.2)

/-- A text without `<tool_call>` is content. -/
theorem parse_no_call (parseBlock : BlockParser) {text : List Char}
    (h : ¬ Reasoning.toolOpen <:+: text) : parse parseBlock text = .ok (stripChars text, []) := by
  have hfind : find Reasoning.toolOpen text 0 = none := by
    unfold find
    rw [searchFrom_eq_none]
    · rfl
    · intro k _
      rw [if_neg]
      intro hp
      have hpre := List.isPrefixOf_iff_prefix.mp hp
      rw [List.drop_drop] at hpre
      exact h (hpre.isInfix.trans (List.drop_suffix _ _).isInfix)
  have hfrom : ∀ fuel, parseFrom parseBlock text fuel 0 0 = .ok (text, []) := by
    intro fuel
    cases fuel with
    | zero => simp [parseFrom]
    | succ fuel =>
        unfold parseFrom nextBlock
        rw [hfind]
        simp
  unfold parse
  rw [hfrom]
  rfl

end RolloutProxy.ToolParser
