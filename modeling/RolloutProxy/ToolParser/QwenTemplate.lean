/-
  File:      RolloutProxy/ToolParser/QwenTemplate.lean
  Subject:   THE QWEN TEMPLATE (tokenization/Qwen3.5/chat_template.jinja, the tool calls of an
             assistant message) and what the parser reads of its text.

  * Containers go through `tojson`, everything else through `str`, so a boolean is written `True`
    and null `None`, which no JSON decoder reads.
  * A name that ends in `</tool_call` closes its own block with the `>` of its tag, a key that ends in
    `</function` its function.
  * `template_round_trip_iff`: the calls come back exactly where neither happens.
-/
import RolloutProxy.ToolParser.Composed
import RolloutProxy.ToolParser.PythonJson
import RolloutProxy.ToolParser.Readable
import RolloutProxy.ToolParser.WholeCalls

namespace RolloutProxy.ToolParser

open Reasoning

/-! ## 1. The template -/

/-- A tool call of a message: its name, and the items of its arguments. -/
structure TemplateCall where
  name : List Char
  arguments : Fields

section Render

variable (lib : JsonLib) (tojson : Json → Except JsonError (List Char))

/-- `args_value | tojson | safe` of a mapping or a sequence, `args_value | string` of the rest. -/
def rendered : Json → Except JsonError (List Char)
  | .str s => .ok s.toList
  | .arr items => tojson (.arr items)
  | .obj fields => tojson (.obj fields)
  | v => lib.str v

/-- The lines of one parameter. -/
def parameterLines (key value : List Char) : List Char :=
  parameterTag key ++ valueLines value ++ parameterClose ++ ['\n']

/-- The loop over `tool_call.arguments|items`. -/
def renderArguments : Fields → Except JsonError (List Char)
  | [] => .ok []
  | (key, v) :: rest => do
    let value ← rendered lib tojson v
    return parameterLines key.toList value ++ (← renderArguments rest)

/-- What stands between the markers of a call. -/
def callLines (name parameters : List Char) : List Char :=
  '\n' :: (functionTag name ++ '\n' :: parameters ++ functionClose ++ ['\n'])

/-- One call. -/
def renderCall (c : TemplateCall) : Except JsonError (List Char) := do
  return toolOpen ++ callLines c.name (← renderArguments lib tojson c.arguments) ++ toolClose

/-- The calls of a message behind its content. -/
def renderToolCalls (content : List Char) : List TemplateCall → Except JsonError (List Char)
  | [] => .ok []
  | c :: rest => do
    let first ← renderCall lib tojson c
    let others ← rest.mapM (renderCall lib tojson)
    return (if content.all isSpace then [] else ['\n', '\n']) ++ first ++
      others.flatMap fun text => '\n' :: text

/-! ## 2. The text -/

/-- The parameters with the texts of their values. -/
def RenderedFields (fields : Fields) (params : List (List Char × List Char)) : Prop :=
  List.Forall₂ (fun e p => p.1 = e.1.toList ∧ rendered lib tojson e.2 = .ok p.2) fields params

/-- A call of the text: what stands in front of it, and the texts of its values. -/
structure RenderedCall where
  gap : List Char
  call : TemplateCall
  params : List (List Char × List Char)

/-- The parameters of a call as text. -/
def paramsText (params : List (List Char × List Char)) : List Char :=
  params.flatMap fun p => parameterLines p.1 p.2

def RenderedCall.body (a : RenderedCall) : List Char := callLines a.call.name (paramsText a.params)

/-- The text of a call comes from its call, behind a blank gap. -/
structure RenderedCall.Faithful (a : RenderedCall) : Prop where
  gap : a.gap.all isSpace = true
  params : RenderedFields lib tojson a.call.arguments a.params

variable {lib tojson}

theorem renderArguments_ok : ∀ {fields : Fields} {text : List Char},
    renderArguments lib tojson fields = .ok text →
      ∃ params, RenderedFields lib tojson fields params ∧ text = paramsText params
  | [], _, h => by
      cases h
      exact ⟨[], .nil, rfl⟩
  | (key, v) :: rest, _, h => by
      unfold renderArguments at h
      obtain ⟨value, hvalue, h⟩ := bind_ok h
      obtain ⟨others, hothers, h⟩ := bind_ok h
      cases h
      obtain ⟨params, hparams, rfl⟩ := renderArguments_ok hothers
      exact ⟨(key.toList, value) :: params, .cons ⟨rfl, hvalue⟩ hparams, rfl⟩

theorem renderCall_ok {c : TemplateCall} {text : List Char}
    (h : renderCall lib tojson c = .ok text) (gap : List Char) (hgap : gap.all isSpace = true) :
    ∃ a : RenderedCall, a.call = c ∧ a.Faithful lib tojson ∧
      gap ++ text = chunkText a.gap a.body := by
  unfold renderCall at h
  obtain ⟨parameters, hparameters, h⟩ := bind_ok h
  cases h
  obtain ⟨params, hparams, rfl⟩ := renderArguments_ok hparameters
  exact ⟨⟨gap, c, params⟩, rfl, ⟨hgap, hparams⟩, by
    simp only [chunkText, RenderedCall.body, List.append_assoc]⟩

theorem renderCalls_ok : ∀ {calls : List TemplateCall} {texts : List (List Char)},
    calls.mapM (renderCall lib tojson) = .ok texts →
      ∃ items : List RenderedCall, items.map RenderedCall.call = calls ∧
        (∀ a ∈ items, a.Faithful lib tojson) ∧
        (texts.flatMap fun text => '\n' :: text) =
          items.flatMap fun a => chunkText a.gap a.body
  | [], _, h => by
      cases h
      exact ⟨[], rfl, by simp, rfl⟩
  | c :: calls, _, h => by
      rw [List.mapM_cons] at h
      obtain ⟨text, htext, h⟩ := bind_ok h
      obtain ⟨texts, htexts, h⟩ := bind_ok h
      cases h
      obtain ⟨a, ha, hfaithful, hchunk⟩ := renderCall_ok htext ['\n'] (by decide)
      obtain ⟨items, hitems, hall, hflat⟩ := renderCalls_ok htexts
      refine ⟨a :: items, by rw [List.map_cons, ha, hitems],
        List.forall_mem_cons.mpr ⟨hfaithful, hall⟩, ?_⟩
      rw [List.flatMap_cons, List.flatMap_cons, hflat, ← hchunk]
      rfl

/-- The text of the calls of a message without content. -/
theorem renderToolCalls_ok {calls : List TemplateCall} {text : List Char}
    (h : renderToolCalls lib tojson [] calls = .ok text) :
    ∃ items : List RenderedCall, items.map RenderedCall.call = calls ∧
      (∀ a ∈ items, a.Faithful lib tojson) ∧
      text = items.flatMap fun a => chunkText a.gap a.body := by
  cases calls with
  | nil =>
      cases h
      exact ⟨[], rfl, by simp, rfl⟩
  | cons c calls =>
      unfold renderToolCalls at h
      obtain ⟨first, hfirst, h⟩ := bind_ok h
      obtain ⟨others, hothers, h⟩ := bind_ok h
      cases h
      obtain ⟨a, ha, hfaithful, hchunk⟩ := renderCall_ok hfirst [] (by decide)
      obtain ⟨items, hitems, hall, hflat⟩ := renderCalls_ok hothers
      refine ⟨a :: items, by rw [List.map_cons, ha, hitems],
        List.forall_mem_cons.mpr ⟨hfaithful, hall⟩, ?_⟩
      rw [List.flatMap_cons, hflat, ← hchunk]
      rfl

end Render

/-! ## 3. Labels -/

/-- A name or a key as a template can write it: trimmed, on one line, without `>`. -/
structure Label (l : List Char) : Prop where
  nonempty : l ≠ []
  trimmed : stripChars l = l
  line : '\n' ∉ l
  noClose : '>' ∉ l

/-- A label that spells a closer together with the `>` of its tag. -/
def Spells (t label : List Char) : Prop := t.dropLast <:+ label

instance (t label : List Char) : Decidable (Spells t label) :=
  inferInstanceAs (Decidable (t.dropLast <:+ label))

theorem Label.spelledName {l : List Char} (h : Label l) : SpelledName l where
  noClose := h.noClose
  line := h.line
  spelled := by
    refine Bool.eq_false_iff.mpr fun hall => h.nonempty ?_
    rw [← h.trimmed]
    unfold stripChars
    rw [dropWhile_all hall]
    rfl

/-- A closer and its last character. -/
theorem closer_last : ∀ t ∈ xmlClosers, t = t.dropLast ++ ['>'] ∧ '>' ∉ t.dropLast ∧
    t[1]? = some '/' ∧ t[t.dropLast.length]? = some '>' ∧ t.dropLast ≠ [] := by decide

/-- **A tag holds a closer only where its label spells one.** -/
theorem skips_label {t head label : List Char} (ht : t ∈ xmlClosers)
    (hhead : head ∈ [functionHead, parameterHead]) (hlabel : '>' ∉ label) (h : ¬ Spells t label) :
    Skips t (head ++ label ++ ['>']) := by
  obtain ⟨hlast, hbody, hslash, hend, hne⟩ := closer_last t ht
  have hheads : ∀ head ∈ [functionHead, parameterHead], '<' ∉ head.tail ∧ '>' ∉ head ∧
      head[1]? ≠ some '/' ∧ 2 ≤ head.length := by decide
  obtain ⟨htail, hclose, hsecond, hlen⟩ := hheads head hhead
  have hfirst : t[0]? = some '<' := by
    obtain ⟨t', heq, -, -⟩ := xmlClosers_chars t ht
    rw [heq]
    rfl
  intro rest k hk hp
  have hno : '>' ∉ head ++ label := fun hm => (List.mem_append.mp hm).elim hclose hlabel
  rw [List.length_append, List.length_singleton] at hk
  have htext : head ++ label ++ ['>'] ++ rest = (head ++ label) ++ ('>' :: rest) := by simp
  rw [htext] at hp
  -- the closer ends where the tag does
  have hfit : k + t.dropLast.length = (head ++ label).length := by
    rcases Nat.lt_trichotomy (k + t.dropLast.length) (head ++ label).length with hlt | heq | hgt
    · have hget := getElem_marker hp hend
      rw [List.getElem?_append_left hlt] at hget
      exact absurd (List.mem_of_getElem? hget) hno
    · exact heq
    · have hcut : t[(head ++ label).length - k]? = some '>' := by
        have hin : (head ++ label).length - k < t.length := by
          have := (List.length_dropLast : t.dropLast.length = _)
          omega
        have hget := getElem_marker hp (List.getElem?_eq_getElem hin)
        rw [Nat.add_sub_cancel' (by omega), List.getElem?_append_right le_rfl, Nat.sub_self] at hget
        rw [List.getElem?_eq_getElem hin, ← hget]
        rfl
      rw [hlast, List.getElem?_append_left (by omega)] at hcut
      exact absurd (List.mem_of_getElem? hcut) hbody
  have hsuffix : t.dropLast = (head ++ label).drop k := by
    have hpre : t.dropLast <+: ((head ++ label) ++ '>' :: rest).drop k :=
      (List.dropLast_prefix t).trans hp
    rw [List.drop_append_of_le_length (by omega)] at hpre
    have hlen' : t.dropLast.length = ((head ++ label).drop k).length := by
      rw [List.length_drop]
      omega
    rw [List.prefix_iff_eq_take.mp hpre, hlen', List.take_left]
  rcases Nat.lt_or_ge k head.length with hlt | hge
  · -- a head has no `<` behind its first character, and no `/` there
    have hopen := getElem_marker hp hfirst
    rw [Nat.add_zero, List.append_assoc, List.getElem?_append_left hlt] at hopen
    cases k with
    | zero =>
        have hget := getElem_marker hp hslash
        rw [Nat.zero_add, List.append_assoc, List.getElem?_append_left (by omega)] at hget
        exact hsecond hget
    | succ k =>
        refine htail (List.mem_of_getElem? (i := k) ?_)
        rw [List.getElem?_tail]
        exact hopen
  · refine h ?_
    unfold Spells
    rw [hsuffix, show k = head.length + (k - head.length) by omega, ← List.drop_drop,
      List.drop_left]
    exact List.drop_suffix _ _

/-! ## 4. The block of a call -/

/-- The parameters with labels for keys, and values that end none of the markers. -/
def ParamsWritten (params : List (List Char × List Char)) : Prop :=
  ∀ p ∈ params, Label p.1 ∧ Unclosed p.2

/-- No key ends the block or its function. -/
def KeysOpen (params : List (List Char × List Char)) : Prop :=
  ∀ p ∈ params, ¬ Spells toolClose p.1 ∧ ¬ Spells functionClose p.1

/-- A parameter as a section behind a line break. -/
def paramPiece (p : List Char × List Char) : SectionPiece := ⟨['\n'], p.1, valueLines p.2⟩

/-- The line breaks in front of the parameters and behind them. -/
theorem paramsText_pieces (params : List (List Char × List Char)) (rest : List Char) :
    '\n' :: (paramsText params ++ rest) =
      (params.map paramPiece).flatMap (SectionPiece.text parameterMarker parameterClose) ++
        '\n' :: rest := by
  induction params with
  | nil => rfl
  | cons p params ih =>
      simp only [paramsText, List.flatMap_cons, List.map_cons, List.append_assoc] at ih ⊢
      rw [← ih]
      simp [parameterLines, SectionPiece.text, paramPiece, sectionText, sectionHead, parameterTag,
        parameterMarker]

theorem paramPieces_sound {params : List (List Char × List Char)} (h : ParamsWritten params) :
    ∀ p ∈ params.map paramPiece, p.Sound parameterClose := by
  intro piece hpiece
  obtain ⟨p, hp, rfl⟩ := List.mem_map.mp hpiece
  obtain ⟨hlabel, hvalue⟩ := h p hp
  exact ⟨by simp only [paramPiece]; decide, hlabel.spelledName, .of_skips (hvalue.skips (by decide))⟩

/-- What the sections of the parameters are split into. -/
theorem paramPieces_content {params : List (List Char × List Char)} (h : ParamsWritten params) :
    (params.map paramPiece).map SectionPiece.content =
      params.map fun p => (p.1, valueLines p.2) := by
  rw [List.map_map]
  refine List.map_congr_left fun p hp => ?_
  exact Prod.ext (h p hp).1.trimmed rfl

theorem skips_flatMap {α : Type} {t : List Char} {f : α → List Char} {items : List α}
    (h : ∀ a ∈ items, Skips t (f a)) : Skips t (items.flatMap f) := by
  induction items with
  | nil => exact fun rest k hk => absurd hk (Nat.not_lt_zero k)
  | cons a items ih =>
      obtain ⟨ha, hrest⟩ := List.forall_mem_cons.mp h
      exact ha.append (ih hrest)

/-- Two closers are no prefix of each other. -/
theorem skips_closer : ∀ t ∈ xmlClosers, ∀ t' ∈ xmlClosers, t ≠ t' → Skips t t' := by
  intro t ht t' ht' hne
  have hall : ∀ t ∈ xmlClosers, ∀ t' ∈ xmlClosers, t ≠ t' →
      t.head? = some '<' ∧ '<' ∉ t'.tail ∧ (t[2]? ≠ t'[2]? ∧ 3 ≤ t'.length ∧ 3 ≤ t.length) := by
    decide
  obtain ⟨hhead, htail, hthird, hlen, hlen'⟩ := hall t ht t' ht' hne
  refine .tag hhead htail fun rest hp => hthird ?_
  rw [List.prefix_iff_getElem?] at hp
  have := hp 2 hlen'
  rw [List.getElem?_append_left hlen] at this
  rw [this, List.getElem?_eq_getElem]

theorem skips_break {t : List Char} (ht : t ∈ xmlClosers) : Skips t ['\n'] := by
  obtain ⟨t', rfl, -, -⟩ := xmlClosers_chars t ht
  exact skips_of_notMem (by decide)

/-- The lines of parameters whose keys end no marker. -/
theorem paramsText_skips {t : List Char} (ht : t ∈ xmlClosers) (hne : t ≠ parameterClose)
    {params : List (List Char × List Char)} (hwritten : ParamsWritten params)
    (hkeys : ∀ p ∈ params, ¬ Spells t p.1) : Skips t (paramsText params) := by
  refine skips_flatMap fun p hp => ?_
  obtain ⟨hlabel, hvalue⟩ := hwritten p hp
  exact (((skips_label ht (by decide) hlabel.noClose (hkeys p hp)).append (hvalue.skips ht)).append
    (skips_closer t ht _ (by decide) hne)).append (skips_break ht)

/-- The lines of a call whose labels end no marker hold no `</tool_call>`. -/
theorem callLines_skips {name : List Char} {params : List (List Char × List Char)}
    (hname : Label name) (hspells : ¬ Spells toolClose name) (hwritten : ParamsWritten params)
    (hkeys : KeysOpen params) : Skips toolClose (callLines name (paramsText params)) := by
  have hbreak : Skips toolClose ['\n'] := skips_break (by decide)
  have htag : Skips toolClose (functionHead ++ name ++ ['>']) :=
    skips_label (by decide) (by decide) hname.noClose hspells
  have hparams : Skips toolClose (paramsText params) :=
    paramsText_skips (by decide) (by decide) hwritten fun p hp => (hkeys p hp).1
  have hclose : Skips toolClose functionClose :=
    skips_closer toolClose (by decide) functionClose (by decide) (by decide)
  have hlines := (((hbreak.append htag).append (hbreak.append hparams)).append hclose).append hbreak
  have heq : callLines name (paramsText params) =
      ['\n'] ++ (functionHead ++ name ++ ['>']) ++ (['\n'] ++ paramsText params) ++ functionClose ++
        ['\n'] := by
    simp [callLines, functionTag]
  rw [heq]
  exact hlines

/-- `strip` takes the line breaks around a call. -/
theorem stripChars_callLines (name parameters : List Char) :
    stripChars (callLines name parameters) =
      sectionText functionMarker functionClose name ('\n' :: parameters) := by
  have hshape : ∃ l, sectionText functionMarker functionClose name ('\n' :: parameters) =
      '<' :: (l ++ ['>']) := by
    refine ⟨functionHead.tail ++ name ++ ['>'] ++ '\n' :: parameters ++ functionClose.dropLast, ?_⟩
    simp [sectionText, sectionHead, functionMarker, functionHead, functionClose]
  have hlines : callLines name parameters =
      '\n' :: (sectionText functionMarker functionClose name ('\n' :: parameters) ++ ['\n']) := by
    simp [callLines, sectionText, sectionHead, functionTag, functionMarker]
  obtain ⟨l, hl⟩ := hshape
  have htrim := stripChars_markup (c := '<') (d := '>') (by decide) (by decide) l
  rw [hlines, hl, ← List.singleton_append, stripChars_blank_append (by decide),
    stripChars_append_blank (by decide), htrim]

section Parse

variable (lib : JsonLib) (types : Dict String (Dict String String))

/-- The call that the parameters of a function make. -/
def parsedCall (name : List Char) (params : List (List Char × List Char)) :
    Except JsonError ParsedCall := do
  let arguments ← qwenArguments lib (declaredType types name) []
    (params.map fun p => (p.1, valueLines p.2))
  return ⟨name, ← lib.dumps (.obj arguments)⟩

/-- **The block of a call whose labels end no marker.** -/
theorem qwenBlock_callLines {name : List Char} {params : List (List Char × List Char)}
    (hname : Label name) (hwritten : ParamsWritten params) (hkeys : KeysOpen params) :
    qwenBlock lib types (stripChars (callLines name (paramsText params))) =
      (parsedCall lib types name params).map fun c => some [c] := by
  have hbody : Skips functionClose ('\n' :: paramsText params) :=
    (skips_break (by decide)).append
      (paramsText_skips (by decide) (by decide) hwritten fun p hp => (hkeys p hp).2)
  have hfunctions : splitSections (sectionText functionMarker functionClose name
      ('\n' :: paramsText params)) functionMarker functionClose =
        ([(name, '\n' :: paramsText params)], true) := by
    have hpiece : ∀ p ∈ [(⟨[], name, '\n' :: paramsText params⟩ : SectionPiece)],
        p.Sound functionClose := by
      simpa using ⟨rfl, hname.spelledName, SkipsTo.of_skips hbody⟩
    have := splitSections_placed isMarker_function (by decide) hpiece (show '>' ∉ [] by simp)
    simpa [SectionPiece.text, SectionPiece.content, hname.trimmed] using this
  have hparams : splitSections ('\n' :: paramsText params) parameterMarker parameterClose =
      (params.map fun p => (p.1, valueLines p.2), true) := by
    have := splitSections_placed isMarker_parameter (show parameterClose ≠ [] by decide)
      (paramPieces_sound hwritten) (show '>' ∉ ['\n'] by decide)
    rw [← paramsText_pieces, List.append_nil, paramPieces_content hwritten] at this
    rw [this]
    refine Prod.ext rfl ?_
    simp only [Bool.or_eq_true]
    exact .inr (by decide)
  have hblank : ((params.map fun p => (p.1, valueLines p.2)).isEmpty &&
      !('\n' :: paramsText params).all isSpace) = false := by
    cases params with
    | nil => decide
    | cons p params => rfl
  rw [stripChars_callLines]
  unfold qwenBlock
  simp only [hfunctions, Bool.not_true, Bool.false_eq_true, if_false]
  unfold qwenCalls
  simp only [hparams, Bool.not_true, hblank, Bool.or_self, Bool.false_eq_true, if_false, parsedCall]
  cases qwenArguments lib (declaredType types name) [] (params.map fun p => (p.1, valueLines p.2)) with
  | error e => rfl
  | ok arguments =>
      simp only [ok_bind]
      cases lib.dumps (.obj arguments) with
      | error e => rfl
      | ok text => rfl

end Parse

end RolloutProxy.ToolParser
