/-
  File:      RolloutProxy/Reasoning/Scanner.lean
  Subject:   THE REASONING SCANNER (`_reasoning_markers`, `_think_spans` and `ThinkReasoning`,
             tokenization/base.py).

  The loop of the scanner is a step function on its local variables: `Scan.step` is one turn of
  the `while`, with the marker it yields. The five variables that a quoted example saves and
  restores are one record, `Scope`. A turn moves the position forward (`step_pos`), so the length
  of the text bounds the number of turns.
-/
import RolloutProxy.Reasoning.Quotes

namespace RolloutProxy.Reasoning

/-! ## 1. State -/

/-- `(in_tool, in_function, json_depth, argument_depth, tool_in_reasoning)`. -/
structure Scope where
  inTool : Bool
  inFunction : Bool
  jsonDepth : Nat
  argumentDepth : Nat
  toolInReasoning : Bool
  deriving DecidableEq

/-- Outside every tool call. -/
def Scope.plain : Scope := ⟨false, false, 0, 0, false⟩

/-- `in_tool = in_function = False; json_depth = argument_depth = 0`. -/
def Scope.leaveTool (s : Scope) : Scope :=
  { s with inTool := false, inFunction := false, jsonDepth := 0, argumentDepth := 0 }

/-- The local variables of the scanner. -/
structure Scan where
  pos : Nat
  quoteEnd : Option Nat
  quoteMarker : Option (List Char)
  jsonQuote : Bool
  quoteState : Scope
  scope : Scope
  inReasoning : Option Bool
  deriving DecidableEq

def Scan.initial : Scan := ⟨0, none, none, false, .plain, .plain, none⟩

/-- A yielded match: `<think>` where it opens, else `</think>`. -/
structure Marker where
  start : Nat
  stop : Nat
  opens : Bool
  deriving DecidableEq

section Scanner

variable (isAlnum : Char → Bool) (text : List Char) (ends : Dict Nat Nat)

/-- `len(text) - len(text.lstrip())`. -/
def firstContent : Nat := (text.takeWhile isSpace).length

namespace Scan

/-! ## 2. The branches of the loop -/

/-- A quoted example that has ended gives back the scope it began in. -/
def leaveQuote (s : Scan) : Scan :=
  match s.quoteEnd with
  | some e =>
    if e ≤ s.pos then
      { s with scope := s.quoteState, quoteEnd := none, jsonQuote := false }
    else s
  | none => s

/-- `limit`. -/
def limit (s : Scan) : Nat := s.quoteEnd.getD text.length

/-- `quote_end = quote_ends.get(match.start())`, with the scope it will give back. -/
def openQuote (s : Scan) (start : Nat) (marker : List Char) : Scan :=
  { s with quoteEnd := ends.get? start, quoteMarker := some marker, quoteState := s.scope }

/-- The end of the JSON string that starts at `start`. -/
def stringEnd (start limit : Nat) : Nat := start + 1 + stringTail (region text (start + 1) limit)

/-- A quote in a JSON object outside its arguments: a key or a name, and what an `arguments` key
    opens; `false` where `json.loads` refuses the key. -/
def headerString (s : Scan) (start limit : Nat) : Scan × Bool :=
  let e := jsonHeaderEnd s.pos (region text s.pos limit)
  let s := { s with pos := e.1 }
  if e.2 && s.scope.jsonDepth == 1 then
    match loadsKey (region text (start + 1) s.pos) with
    | none => (s, false)
    | some key =>
      match argumentStart (region text s.pos limit) with
      | some (c, offset) =>
        if isArgumentsKey key then
          if c = '"' then ({ s with pos := stringEnd text (s.pos + offset) limit }, true)
          else
            ({ s with
              pos := s.pos + offset + 1
              scope := { s.scope with
                jsonDepth := s.scope.jsonDepth + 1
                argumentDepth := s.scope.jsonDepth + 1 } }, true)
        else (s, true)
      | none => (s, true)
  else (s, true)

/-- A quote followed by prose ends an unfinished JSON example. -/
def endJsonExample (s : Scan) (limit : Nat) : Scan :=
  if s.jsonQuote && text[s.pos - 1]? == some '"' &&
      !stringFollows isAlnum (region text s.pos limit) then
    { s with quoteEnd := some s.pos }
  else s

/-- A double quote inside a JSON object. -/
def jsonString (s : Scan) (start limit : Nat) : Scan :=
  if s.scope.argumentDepth ≠ 0 then
    endJsonExample isAlnum text { s with pos := stringEnd text start limit } limit
  else
    let r := headerString text s start limit
    if r.2 then endJsonExample isAlnum text r.1 limit else r.1

/-- A quote in prose; a possessive apostrophe or an inch mark opens none. -/
def proseQuote (s : Scan) (start : Nat) (quote : Char) : Scan :=
  if s.jsonQuote && quote == '"' then { s with quoteEnd := some s.pos }
  else if s.quoteEnd = none ∧ (closersOf quote ≠ [quote] ∨ start = 0 ∨
      (text[start - 1]?.map isAlnum).getD false = false) then
    s.openQuote ends start [quote]
  else s

/-- A real boundary of reasoning. -/
def thinkTag (s : Scan) (opens : Bool) : Scan :=
  { s with
    scope := s.scope.leaveTool
    quoteEnd := none
    jsonQuote := false
    inReasoning := some opens }

/-- `<tool_call>`. -/
def toolTag (s : Scan) (start limit : Nat) : Scan :=
  let inReasoning :=
    if s.inReasoning = none ∧ start = firstContent text then some false else s.inReasoning
  let tool : Bool := inReasoning != some false
  match objectStart (region text s.pos limit) with
  | none =>
    { s with inReasoning := inReasoning, scope := ⟨true, false, 0, 0, tool⟩ }
  | some n =>
    if s.quoteEnd ≠ none ∧ s.quoteMarker = some ['"'] then
      { s with
        inReasoning := inReasoning
        scope := ⟨true, false, 1, 0, tool⟩
        quoteEnd := some text.length
        jsonQuote := true
        pos := s.pos + n }
    else
      { s with
        inReasoning := inReasoning
        scope := ⟨true, false, 1, 0, tool⟩
        pos := s.pos + n }

/-- A bracket of a JSON object. -/
def jsonBracket (s : Scan) (marker : List Char) : Scan :=
  if marker = ['{'] ∨ marker = ['['] then
    { s with scope := { s.scope with jsonDepth := s.scope.jsonDepth + 1 } }
  else if marker = ['}'] ∨ marker = [']'] then
    let depth := s.scope.jsonDepth - 1
    { s with scope := { s.scope with
        jsonDepth := depth
        argumentDepth := if depth < s.scope.argumentDepth then 0 else s.scope.argumentDepth } }
  else s

/-- `bool(marker[len(head):-1].strip())`. -/
def named (head marker : List Char) : Bool := !((marker.drop head.length).dropLast.all isSpace)

/-- A tag of an XML call. -/
def xmlTag (s : Scan) (limit : Nat) (marker : List Char) : Scan :=
  if functionHead.isPrefixOf marker then
    { s with scope := { s.scope with inFunction := named functionHead marker } }
  else if marker = functionClose then { s with scope := { s.scope with inFunction := false } }
  else if s.scope.inFunction ∧ parameterHead.isPrefixOf marker ∧ named parameterHead marker then
    if s.scope.toolInReasoning ∧ s.quoteEnd = none then
      { s with pos := xmlReasoningValueEnd s.pos 0 none (region text s.pos limit) }
    else { s with pos := (xmlValueEnd text s.pos limit).getD limit }
  else s

/-! ## 3. The loop -/

/-- `marker in _PROSE_QUOTE_PAIRS`. -/
def opensProse : List Char → Bool
  | [c] => opensQuote c
  | _ => false

/-- What a turn does with the marker it found at `start`; `s.pos` is the end of the marker. -/
def onMarker (s : Scan) (start limit : Nat) (marker : List Char) : Scan × Option Marker :=
  match marker with
  | '`' :: _ => (if s.quoteEnd = none then s.openQuote ends start marker else s, none)
  | '~' :: _ => (if s.quoteEnd = none then s.openQuote ends start marker else s, none)
  | _ =>
    if s.scope.jsonDepth ≠ 0 ∧ marker = ['"'] then (s.jsonString isAlnum text start limit, none)
    else if s.scope.jsonDepth = 0 ∧ opensProse marker then
      (s.proseQuote isAlnum text ends start (marker.headD ' '), none)
    else if marker = thinkOpen then (s.thinkTag true, some ⟨start, s.pos, true⟩)
    else if marker = thinkClose then (s.thinkTag false, some ⟨start, s.pos, false⟩)
    else if marker = toolOpen then (s.toolTag text start limit, none)
    else if marker = toolClose then ({ s with scope := s.scope.leaveTool }, none)
    else if s.scope.jsonDepth ≠ 0 then (s.jsonBracket marker, none)
    else if s.scope.inTool then (s.xmlTag text limit marker, none)
    else (s, none)

/-- One turn of the loop, or its end. -/
def step (s : Scan) : Option (Scan × Option Marker) :=
  if text.length ≤ s.pos then none
  else
    let s := s.leaveQuote
    match searchToken text s.pos (s.limit text) with
    | none =>
      match s.quoteEnd with
      | none => none
      | some e => some ({ s with pos := e }, none)
    | some (start, marker) =>
      some (onMarker isAlnum text ends { s with pos := start + marker.length } start
        (s.limit text) marker)

/-- The markers yielded from a state on; `fuel` bounds the turns. -/
def markersFrom : Nat → Scan → List Marker
  | 0, _ => []
  | fuel + 1, s =>
    match step isAlnum text ends s with
    | none => []
    | some (s', m) => m.toList ++ markersFrom fuel s'

/-- The markers yielded from a state on: a turn moves the position, so the turns are no more than
    the characters. -/
def markers (s : Scan) : List Marker := markersFrom isAlnum text ends text.length s

end Scan

end Scanner

/-- `_reasoning_markers`. -/
def reasoningMarkers (isAlnum : Char → Bool) (text : List Char) : List Marker :=
  Scan.markers isAlnum text (quotedSpanEnds isAlnum text) .initial

/-! ## 4. Spans of reasoning -/

/-- A span of reasoning: where it is cut, where its body starts, its closing marker, its end. -/
structure Span where
  start : Nat
  body : Nat
  close : Option Nat
  stop : Nat
  deriving DecidableEq

/-- The loop of `_think_spans`. -/
def spansFrom (text : List Char) (start : Option Nat) (body : Nat) (first : Bool) :
    List Marker → List Span
  | [] =>
    match start with
    | some s => [⟨s, body, none, text.length⟩]
    | none => []
  | m :: ms =>
    if m.opens then
      let opened :=
        match start with
        | some s => s
        | none => if first && (text.take m.start).all isSpace then 0 else m.start
      spansFrom text (some opened) m.stop false ms
    else if start.isSome || first then
      ⟨start.getD 0, body, some m.start, m.stop⟩ :: spansFrom text none 0 false ms
    else spansFrom text start body false ms

/-- `_think_spans`. -/
def thinkSpans (isAlnum : Char → Bool) (text : List Char) : List Span :=
  spansFrom text none 0 true (reasoningMarkers isAlnum text)

/-- Behind a span: the newlines after a leading one, the template's separator after a later one. -/
def afterSpan (text : List Char) (s : Span) : Nat :=
  if s.start = 0 then s.stop + ((text.drop s.stop).takeWhile (· == '\n')).length
  else if ['\n', '\n'].isPrefixOf (text.drop s.stop) then s.stop + 2
  else s.stop

/-- The loop of `strip` from position `pos` on. -/
def visible (text : List Char) : Nat → List Span → List Char
  | pos, [] => text.drop pos
  | pos, s :: rest => region text pos s.start ++ visible text (afterSpan text s) rest

/-- `ThinkReasoning.strip`. -/
def stripReasoning (isAlnum : Char → Bool) (text : List Char) : List Char :=
  visible text 0 (thinkSpans isAlnum text)

/-- `ThinkReasoning.extract`. -/
def extractReasoning (isAlnum : Char → Bool) (text : List Char) : Option (List Char) :=
  match thinkSpans isAlnum text with
  | [] => none
  | s :: _ =>
    match s.close with
    | none => none
    | some close =>
      match stripChars (region text s.body close) with
      | [] => none
      | reasoning => some reasoning

/-! ## 5. A turn moves forward -/

theorem jsonHeaderEnd_le : ∀ (pos : Nat) (l : List Char), pos ≤ (jsonHeaderEnd pos l).1 := by
  intro pos l
  induction pos, l using jsonHeaderEnd.induct with
  | case1 pos => exact le_rfl
  | case2 pos l => exact Nat.le_succ _
  | case3 pos d l ih => rw [jsonHeaderEnd]; omega
  | case4 pos c l h₁ h₂ h => rw [jsonHeaderEnd, if_pos h] <;> assumption
  | case5 pos c l h₁ h₂ h ih => rw [jsonHeaderEnd, if_neg h] <;> omega

theorem xmlReasoningValueEnd_le : ∀ (l : List Char) (pos depth : Nat) (boundary : Option Nat)
    (low : Nat), low ≤ pos → (∀ b, boundary = some b → low ≤ b) →
      low ≤ xmlReasoningValueEnd pos depth boundary l
  | [], pos, depth, boundary, low, hp, hb => by
      cases boundary with
      | none => exact hp
      | some b => exact hb b rfl
  | c :: l, pos, depth, boundary, low, hp, hb => by
      have hp' : low ≤ pos + 1 := Nat.le_succ_of_le hp
      unfold xmlReasoningValueEnd
      split
      · exact xmlReasoningValueEnd_le l _ _ _ _ hp' hb
      · split
        · split
          · exact xmlReasoningValueEnd_le l _ _ _ _ hp' hb
          · exact xmlReasoningValueEnd_le l _ _ _ _ hp' (fun b hb' => by cases hb'; exact hp)
        · split
          · split
            · next b => exact hb b rfl
            · exact xmlReasoningValueEnd_le l _ _ _ _ hp' nofun
          · split
            · exact hp
            · exact xmlReasoningValueEnd_le l _ _ _ _ hp' hb

theorem xmlValueEnd_le {text : List Char} {pos limit e : Nat}
    (h : xmlValueEnd text pos limit = some e) : pos ≤ e := by
  obtain ⟨p, hp, rfl⟩ := Option.map_eq_some_iff.mp h
  exact (searchFrom_some hp).1

section Progress

variable {isAlnum : Char → Bool} {text : List Char} {ends : Dict Nat Nat}

namespace Scan

theorem endJsonExample_pos (s : Scan) (limit : Nat) :
    (s.endJsonExample isAlnum text limit).pos = s.pos := by
  unfold endJsonExample
  split <;> rfl

theorem headerString_header (s : Scan) (start limit : Nat) :
    (jsonHeaderEnd s.pos (region text s.pos limit)).1 ≤ (s.headerString text start limit).1.pos := by
  unfold headerString
  simp only
  split
  · split
    · exact le_rfl
    · split
      · split
        · split
          · simp only [stringEnd]; omega
          · simp only; omega
        · exact le_rfl
      · exact le_rfl
  · exact le_rfl

theorem headerString_pos (s : Scan) (start limit : Nat) :
    s.pos ≤ (s.headerString text start limit).1.pos :=
  (jsonHeaderEnd_le s.pos _).trans (headerString_header s start limit)

theorem onMarker_pos {s : Scan} {start limit : Nat} {marker : List Char}
    (hpos : s.pos = start + marker.length) (hlimit : s.pos ≤ limit) :
    s.pos ≤ (s.onMarker isAlnum text ends start limit marker).1.pos := by
  unfold onMarker
  split
  · split <;> exact le_rfl
  · split <;> exact le_rfl
  · split
    · next hm =>
      rw [hm.2, List.length_singleton] at hpos
      unfold jsonString
      split
      · rw [endJsonExample_pos]
        simp only [stringEnd]
        omega
      · simp only
        split
        · rw [endJsonExample_pos]
          exact headerString_pos s start limit
        · exact headerString_pos s start limit
    · split
      · unfold proseQuote
        split
        · exact le_rfl
        · split <;> exact le_rfl
      · split
        · exact le_rfl
        · split
          · exact le_rfl
          · split
            · unfold toolTag
              simp only
              split
              · exact le_rfl
              · split <;> exact Nat.le_add_right _ _
            · split
              · exact le_rfl
              · split
                · unfold jsonBracket
                  split
                  · exact le_rfl
                  · split <;> exact le_rfl
                · split
                  · unfold xmlTag
                    split
                    · exact le_rfl
                    · split
                      · exact le_rfl
                      · split
                        · split
                          · exact xmlReasoningValueEnd_le _ _ _ _ _ le_rfl nofun
                          · cases he : xmlValueEnd text s.pos limit with
                            | none => exact hlimit
                            | some e => exact xmlValueEnd_le he
                        · exact le_rfl
                  · exact le_rfl

theorem leaveQuote_pos (s : Scan) : s.leaveQuote.pos = s.pos := by
  unfold leaveQuote
  split
  · split <;> rfl
  · rfl

/-- A quoted example that is still open ends ahead. -/
theorem leaveQuote_end {s : Scan} {e : Nat} (h : s.leaveQuote.quoteEnd = some e) : s.pos < e := by
  unfold leaveQuote at h
  split at h
  · next e' he =>
    split at h
    · cases h
    · rw [he] at h
      cases h
      omega
  · next hn =>
    rw [hn] at h
    cases h

/-- A marker lies in front of the limit. -/
theorem searchToken_stop {pos limit start : Nat} {m : List Char}
    (h : searchToken text pos limit = some (start, m)) :
    m ≠ [] ∧ m <+: region text start limit ∧ start + m.length ≤ limit ∧
      start + m.length ≤ text.length := by
  obtain ⟨-, -, htok, -⟩ := searchToken_some h
  obtain ⟨hne, hp, -⟩ := tokenAt_spec htok
  have hlen := hp.length_le
  have hpos : 0 < m.length := List.length_pos_iff.mpr hne
  rw [region_length] at hlen
  exact ⟨hne, hp, by omega, by omega⟩

/-- **Every turn moves forward.** -/
theorem step_pos {s s' : Scan} {m : Option Marker}
    (h : s.step isAlnum text ends = some (s', m)) : s.pos < s'.pos := by
  unfold step at h
  split at h
  · cases h
  · simp only at h
    split at h
    · split at h
      · cases h
      · next e he =>
        cases h
        exact leaveQuote_end he
    · next start marker hs =>
      obtain ⟨hne, -, hlim, -⟩ := searchToken_stop hs
      have hlow := (searchToken_some hs).1
      rw [leaveQuote_pos] at hlow
      have hpos : 0 < marker.length := List.length_pos_iff.mpr hne
      simp only [Option.some.injEq] at h
      have hle : start + marker.length ≤ (onMarker isAlnum text ends
          { s.leaveQuote with pos := start + marker.length } start (s.leaveQuote.limit text)
          marker).1.pos :=
        onMarker_pos (s := { s.leaveQuote with pos := start + marker.length }) rfl hlim
      rw [h] at hle
      simp only at hle
      omega

/-- The fuel does not matter once it covers the text. -/
theorem markersFrom_eq : ∀ (fuel fuel' : Nat) (s : Scan), text.length ≤ s.pos + fuel →
    text.length ≤ s.pos + fuel' →
      markersFrom isAlnum text ends fuel s = markersFrom isAlnum text ends fuel' s
  | 0, 0, _, _, _ => rfl
  | 0, fuel' + 1, s, h, _ => by
      unfold markersFrom
      rw [show s.step isAlnum text ends = none by unfold step; rw [if_pos (by omega)]]
  | fuel + 1, 0, s, _, h => by
      unfold markersFrom
      rw [show s.step isAlnum text ends = none by unfold step; rw [if_pos (by omega)]]
  | fuel + 1, fuel' + 1, s, h, h' => by
      unfold markersFrom
      cases hs : s.step isAlnum text ends with
      | none => rfl
      | some p =>
          have hpos : s.pos < p.1.pos := step_pos hs
          simp only
          rw [markersFrom_eq fuel fuel' p.1 (by omega) (by omega)]

/-- The markers of a turn, and those behind it. -/
theorem markers_step {s s' : Scan} {m : Option Marker}
    (h : s.step isAlnum text ends = some (s', m)) :
    s.markers isAlnum text ends = m.toList ++ s'.markers isAlnum text ends := by
  have hpos := step_pos h
  unfold markers
  rw [markersFrom_eq text.length (text.length + 1) s (by omega) (by omega)]
  rw [markersFrom, h]

theorem markers_end {s : Scan} (h : s.step isAlnum text ends = none) :
    s.markers isAlnum text ends = [] := by
  unfold markers
  rw [markersFrom_eq text.length (text.length + 1) s (by omega) (by omega)]
  rw [markersFrom, h]

/-! ## 6. What is yielded -/

/-- A turn that yields met a think tag. -/
theorem onMarker_yields {s s' : Scan} {start limit : Nat} {marker : List Char} {m : Marker}
    (h : s.onMarker isAlnum text ends start limit marker = (s', some m)) :
    (marker = thinkOpen ∧ s' = s.thinkTag true ∧ m = ⟨start, s.pos, true⟩) ∨
      (marker = thinkClose ∧ s' = s.thinkTag false ∧ m = ⟨start, s.pos, false⟩) := by
  unfold onMarker at h
  split at h
  · cases h
  · cases h
  · split at h
    · cases h
    · split at h
      · cases h
      · split at h
        · next hm => cases h; exact .inl ⟨hm, rfl, rfl⟩
        · split at h
          · next hm => cases h; exact .inr ⟨hm, rfl, rfl⟩
          · split at h
            · cases h
            · split at h
              · cases h
              · split at h
                · cases h
                · split at h <;> cases h

/-- **What is yielded stands in the text.** -/
theorem step_yields {s s' : Scan} {m : Marker} (h : s.step isAlnum text ends = some (s', some m)) :
    (m.opens = true ∧ thinkOpen <+: text.drop m.start) ∨
      (m.opens = false ∧ thinkClose <+: text.drop m.start) := by
  unfold step at h
  split at h
  · cases h
  · simp only at h
    split at h
    · split at h <;> cases h
    · next start marker hs =>
      have hp : marker <+: text.drop start :=
        (searchToken_stop hs).2.1.trans (drop_le_drop (List.take_prefix _ _) _)
      simp only [Option.some.injEq] at h
      rcases onMarker_yields h with ⟨rfl, -, rfl⟩ | ⟨rfl, -, rfl⟩
      · exact .inl ⟨rfl, hp⟩
      · exact .inr ⟨rfl, hp⟩

/-- What is yielded lies ahead. -/
theorem step_ahead {s s' : Scan} {m : Marker} (h : s.step isAlnum text ends = some (s', some m)) :
    s.pos ≤ m.start := by
  unfold step at h
  split at h
  · cases h
  · simp only at h
    split at h
    · split at h <;> cases h
    · next start marker hs =>
      have hlow := (searchToken_some hs).1
      rw [leaveQuote_pos] at hlow
      simp only [Option.some.injEq] at h
      rcases onMarker_yields h with ⟨-, -, rfl⟩ | ⟨-, -, rfl⟩ <;> exact hlow

/-- Every marker yielded from a state on lies ahead, and stands in the text. -/
theorem markersFrom_stand : ∀ (fuel : Nat) (s : Scan), ∀ m ∈ markersFrom isAlnum text ends fuel s,
    s.pos ≤ m.start ∧ ((m.opens = true ∧ thinkOpen <+: text.drop m.start) ∨
      (m.opens = false ∧ thinkClose <+: text.drop m.start))
  | 0, _, m, hm => by cases hm
  | fuel + 1, s, m, hm => by
      unfold markersFrom at hm
      split at hm
      · cases hm
      · next s' o hs =>
        rcases List.mem_append.mp hm with hm | hm
        · cases o with
          | none => cases hm
          | some m' =>
              rw [Option.toList_some, List.mem_singleton] at hm
              subst hm
              exact ⟨step_ahead hs, step_yields hs⟩
        · obtain ⟨hle, hstand⟩ := markersFrom_stand fuel s' m hm
          exact ⟨(step_pos hs).le.trans hle, hstand⟩

end Scan

end Progress

end RolloutProxy.Reasoning
