/-
  File:      RolloutProxy/ToolParser/GlmRoundTrip.lean
  Subject:   THE GLM TEMPLATE (tokenization/GLM-5.3-Flash/chat_template.jinja, the end of an assistant
             message) and what `parse_completion` reads of its text.

  * A value that is text is written as it is, every other value through `tojson`.
  * `glmBlock_written`: the block parser undoes one call, whatever tags its values spell.
  * `glm_round_trip`: reasoning, content and calls come back together.
-/
import RolloutProxy.ToolParser.GlmReasoning
import RolloutProxy.ToolParser.QwenRoundTrip

namespace RolloutProxy.ToolParser

open Reasoning

/-! ## 1. The template -/

section Render

variable (tojson : Json → Except JsonError (List Char))

/-- `v | tojson(ensure_ascii=False) if v is not string else v`. -/
def glmRendered : Json → Except JsonError (List Char)
  | .str s => .ok s.toList
  | v => tojson v

/-- One argument. -/
def glmArgument (key value : List Char) : List Char :=
  keyOpen ++ key ++ keyClose ++ (valueOpen ++ value ++ valueClose)

/-- The loop over `_args.items()`. -/
def renderGlmArguments : Fields → Except JsonError (List Char)
  | [] => .ok []
  | (key, v) :: rest => do
    let value ← glmRendered tojson v
    return glmArgument key.toList value ++ (← renderGlmArguments rest)

/-- One call. -/
def renderGlmCall (c : TemplateCall) : Except JsonError (List Char) := do
  return toolOpen ++ (c.name ++ (← renderGlmArguments tojson c.arguments)) ++ toolClose

/-- What a completion reasons: nothing, a closed block, or one that its first call ends. -/
inductive ReasoningPart where
  | absent
  | closed (r : List Char)
  | implicit (r : List Char)

def ReasoningPart.text : ReasoningPart → List Char
  | .absent => []
  | .closed r => reasoned r
  | .implicit r => thinkOpen ++ r

/-- A completion: its reasoning, its visible content and its calls. -/
structure GlmCompletion where
  reasoning : ReasoningPart
  content : List Char
  calls : List TemplateCall

/-- The text of a completion. -/
def GlmCompletion.render (m : GlmCompletion) : Except JsonError (List Char) := do
  let calls ← m.calls.mapM (renderGlmCall tojson)
  return m.reasoning.text ++ m.content ++ calls.flatten

/-! ## 2. What is rendered -/

/-- A key is trimmed, and no text of angle brackets. -/
structure GlmKey (key : List Char) : Prop where
  spelled : key ≠ []
  trimmed : stripChars key = key
  noOpen : '<' ∉ key
  noClose : '>' ∉ key

/-- A name is a word without angle brackets. -/
structure GlmName (name : List Char) : Prop where
  spelled : name ≠ []
  word : ∀ ch ∈ name, isSpace ch = false ∧ ch ≠ '<' ∧ ch ≠ '>'

/-- What the template can be given: the arguments a dictionary of JSON values, texts exactly where
    the schema says so, and no value that spells the end of itself or of the call. -/
structure TemplateCall.GlmRenderable (types : Dict String (Dict String String))
    (c : TemplateCall) : Prop where
  name : GlmName c.name
  keys : ∀ e ∈ c.arguments, GlmKey e.1.toList
  distinct : (c.arguments.map Prod.fst).Nodup
  values : ∀ e ∈ c.arguments, Writable e.2 ∧ finiteNumbers e.2 = true
  typed : ∀ e ∈ c.arguments,
    (∃ s, e.2 = .str s) ↔ declaresText (declaredType types c.name e.1.toList) = true
  unclosed : ∀ e ∈ c.arguments, ∀ text, glmRendered tojson e.2 = .ok text →
    ¬ valueClose <:+: text ∧ ¬ toolClose <:+: text

/-- Reasoning without markup. -/
def ReasoningPart.Plain : ReasoningPart → Prop
  | .absent => True
  | .closed r => NoMarkup r
  | .implicit r => NoMarkup r

/-- Reasoning that its first call ends has a call behind it, and no content. -/
structure GlmCompletion.WellFormed (types : Dict String (Dict String String))
    (m : GlmCompletion) : Prop where
  reasoning : m.reasoning.Plain
  content : NoMarkup m.content
  implicit : ∀ r, m.reasoning = .implicit r → m.content = [] ∧ m.calls ≠ []
  calls : ∀ c ∈ m.calls, c.GlmRenderable tojson types

/-- The JSON library: what `tojson` wrote is read back, and an object of values that were written
    is written. -/
structure JsonTrip (lib : JsonLib) : Prop where
  reads : ∀ {v : Json} {text : List Char}, Writable v → finiteNumbers v = true →
    tojson v = .ok text → lib.loads text = .ok v
  writes : ∀ {fields : Fields}, (∀ e ∈ fields, Returns (glmRendered tojson e.2)) →
    Returns (lib.dumps (.obj fields))

end Render

/-- The parameters of a call as text. -/
def glmParams (params : List (List Char × List Char)) : List Char :=
  params.flatMap fun p => glmArgument p.1 p.2

/-- A parameter that can be read back. -/
structure GlmParam (p : List Char × List Char) : Prop where
  key : GlmKey p.1
  value : ¬ valueClose <:+: p.2
  inside : ¬ toolClose <:+: p.2

/-! ## 3. One call -/

/-- A tag does not occur in a text without it that the tag follows. -/
theorem skipsTo_of_not_isInfix {t l : List Char} (ht : t.head? = some '<') (htail : '<' ∉ t.tail)
    (h : ¬ t <:+: l) : SkipsTo t l := by
  intro k hk hp
  obtain ⟨t', rfl⟩ : ∃ t', t = '<' :: t' := by
    cases t with
    | nil => cases ht
    | cons c t' => cases ht; exact ⟨t', rfl⟩
  exact h ((tag_in_front htail hk hp).isInfix.trans (List.drop_suffix _ _).isInfix)

theorem partition_skips {sep l : List Char} (hne : sep ≠ []) (h : SkipsTo sep l) (rest : List Char) :
    partition sep (l ++ sep ++ rest) = some (l, rest) := by
  have hfind := find_skips [] rest hne h
  rw [List.nil_append, List.length_nil, Nat.zero_add] at hfind
  unfold partition
  rw [hfind, Option.map_some, ← List.length_append, List.drop_left, List.append_assoc,
    List.take_left]

/-- The parameters start and end with a bracket, where there are any. -/
theorem glmParams_shape : ∀ params : List (List Char × List Char),
    params = [] ∨ ∃ l, glmParams params = '<' :: (l ++ ['>'])
  | [] => .inl rfl
  | p :: rest => by
      refine .inr ?_
      rcases glmParams_shape rest with rfl | ⟨l, hl⟩
      · refine ⟨keyOpen.tail ++ p.1 ++ keyClose ++ (valueOpen ++ p.2 ++ valueClose.dropLast), ?_⟩
        simp [glmParams, glmArgument, keyOpen, valueClose]
      · refine ⟨keyOpen.tail ++ p.1 ++ keyClose ++ (valueOpen ++ p.2 ++ valueClose) ++ '<' :: l, ?_⟩
        unfold glmParams at hl ⊢
        rw [List.flatMap_cons, hl]
        simp [glmArgument, keyOpen]

theorem stripChars_glmParams (params : List (List Char × List Char)) :
    stripChars (glmParams params) = glmParams params := by
  rcases glmParams_shape params with rfl | ⟨l, hl⟩
  · rfl
  · rw [hl]
    exact stripChars_markup (by decide) (by decide) l

/-- **The pairs of a block**, by induction on its parameters. -/
theorem glmPairs_params : ∀ {p : List Char × List Char} {rest : List (List Char × List Char)}
    {fuel : Nat} {seen : List String}, (p :: rest).length ≤ fuel →
      (∀ q ∈ p :: rest, GlmParam q) → ((p :: rest).map fun q => String.ofList q.1).Nodup →
      (∀ q ∈ p :: rest, String.ofList q.1 ∉ seen) →
        glmPairs fuel seen (p.1 ++ keyClose ++ (valueOpen ++ p.2 ++ valueClose) ++ glmParams rest) =
          (p :: rest, true)
  | p, rest, fuel, seen, hfuel, hp, hdistinct, hseen => by
      obtain ⟨fuel, rfl⟩ : ∃ n, fuel = n + 1 := ⟨fuel - 1, by rw [List.length_cons] at hfuel; omega⟩
      obtain ⟨⟨hkey, hvalue, -⟩, hrest⟩ := List.forall_mem_cons.mp hp
      -- the first pair is cut at its own closing tags
      have hclose : partition keyClose (p.1 ++ keyClose ++ (valueOpen ++ p.2 ++ valueClose) ++
          glmParams rest) = some (p.1, valueOpen ++ (p.2 ++ valueClose ++ glmParams rest)) := by
        have := partition_skips (by decide) (.of_skips (skips_of_notMem hkey.noOpen) :
          SkipsTo keyClose p.1) (valueOpen ++ p.2 ++ valueClose ++ glmParams rest)
        simp only [List.append_assoc] at this ⊢
        exact this
      have hnew : seen.contains (String.ofList p.1) = false := by
        rw [List.contains_eq_mem, decide_eq_false_iff_not]
        exact hseen p List.mem_cons_self
      have hlead : lstrip (valueOpen ++ (p.2 ++ valueClose ++ glmParams rest)) =
          valueOpen ++ (p.2 ++ valueClose ++ glmParams rest) := rfl
      have hopen : valueOpen.isPrefixOf (valueOpen ++ (p.2 ++ valueClose ++ glmParams rest)) = true :=
        List.isPrefixOf_iff_prefix.mpr (List.prefix_append _ _)
      have hend : partition valueClose (p.2 ++ valueClose ++ glmParams rest) =
          some (p.2, glmParams rest) :=
        partition_skips (by decide) (skipsTo_of_not_isInfix rfl (by decide) hvalue) _
      have hsound : (p.1.isEmpty || p.1.contains '<' || p.1.contains '>' ||
          seen.contains (String.ofList p.1)) = false := by
        simp [hkey.spelled, hkey.noOpen, hkey.noClose, hseen p List.mem_cons_self]
      unfold glmPairs
      rw [hclose]
      simp only [hkey.trimmed, hsound, hlead, hopen, List.drop_left, hend, stripChars_glmParams,
        Bool.false_eq_true, if_false, Bool.not_true]
      cases rest with
      | nil => rfl
      | cons q rest =>
        have hparams : glmParams (q :: rest) =
            keyOpen ++ (q.1 ++ keyClose ++ (valueOpen ++ q.2 ++ valueClose) ++ glmParams rest) := by
          simp only [glmParams, List.flatMap_cons, glmArgument, List.append_assoc]
        obtain ⟨hne, hdistinct⟩ := List.nodup_cons.mp hdistinct
        -- the keys behind it are new as well
        have hlater : glmPairs fuel (String.ofList p.1 :: seen)
            (q.1 ++ keyClose ++ (valueOpen ++ q.2 ++ valueClose) ++ glmParams rest) =
              (q :: rest, true) :=
          glmPairs_params (Nat.le_of_succ_le_succ hfuel) hrest hdistinct (fun q' hq' hm => by
            rcases List.mem_cons.mp hm with heq | hm
            · exact hne (List.mem_map.mpr ⟨q', hq', heq⟩)
            · exact hseen q' (List.mem_cons_of_mem _ hq') hm)
        have hkeyOpen : keyOpen.isPrefixOf (glmParams (q :: rest)) = true := by
          rw [hparams]
          exact List.isPrefixOf_iff_prefix.mpr (List.prefix_append _ _)
        have hmore : (glmParams (q :: rest)).isEmpty = false := by
          rw [hparams]
          rfl
        simp only [hmore, hkeyOpen, Bool.false_eq_true, if_false, Bool.not_true]
        rw [hparams, List.drop_left, hlater]

section Block

variable {lib : JsonLib} {types : Dict String (Dict String String)} {name : List Char}
  {params : List (List Char × List Char)}

theorem GlmName.stripped (h : GlmName name) : stripChars name = name := by
  have hblank : ∀ {l : List Char}, (∀ ch ∈ l, isSpace ch = false) → l.dropWhile isSpace = l := by
    intro l hl
    cases l with
    | nil => rfl
    | cons c l => rw [List.dropWhile_cons_of_neg (by simp [hl c List.mem_cons_self])]
  unfold stripChars
  rw [hblank fun ch hch => (h.word ch hch).1,
    hblank fun ch hch => (h.word ch (List.mem_reverse.mp hch)).1, List.reverse_reverse]

theorem GlmName.noOpen (h : GlmName name) : '<' ∉ name := fun hm => (h.word _ hm).2.1 rfl

/-- The name and what is left behind the first key tag. -/
theorem glmBlock_cut (hname : GlmName name) (rest : List Char) :
    partition keyOpen (name ++ keyOpen ++ rest) = some (name, rest) :=
  partition_skips (by decide) (.of_skips (skips_of_notMem hname.noOpen)) rest

theorem glmBlock_bare (hname : GlmName name) : find keyOpen name 0 = none := by
  refine find_eq_none fun k _ hp => hname.noOpen ?_
  exact (hp.isInfix.trans (List.drop_suffix _ _).isInfix).subset List.mem_cons_self

/-- What the parser reads of a block: its name and its parameters. -/
theorem glmBlock_read (hname : GlmName name) (hp : ∀ p ∈ params, GlmParam p)
    (hdistinct : (params.map fun q => String.ofList q.1).Nodup) :
    glmName (name ++ glmParams params) = name ∧
      glmBlockPairs (name ++ glmParams params) = (params, true) := by
  cases params with
  | nil =>
    have hbare : name ++ glmParams [] = name := List.append_nil name
    unfold glmName glmBlockPairs partition
    rw [hbare, glmBlock_bare hname]
    exact ⟨hname.stripped, rfl⟩
  | cons p rest =>
    have htext : name ++ glmParams (p :: rest) = name ++ keyOpen ++
        (p.1 ++ keyClose ++ (valueOpen ++ p.2 ++ valueClose) ++ glmParams rest) := by
      simp only [glmParams, List.flatMap_cons, glmArgument, List.append_assoc]
    have hcut := glmBlock_cut hname
      (p.1 ++ keyClose ++ (valueOpen ++ p.2 ++ valueClose) ++ glmParams rest)
    rw [htext]
    unfold glmName glmBlockPairs
    rw [hcut]
    have hfound : (find keyOpen (name ++ keyOpen ++
        (p.1 ++ keyClose ++ (valueOpen ++ p.2 ++ valueClose) ++ glmParams rest)) 0).isSome = true := by
      exact (find_isSome (by decide)).mpr ⟨name, _, rfl⟩
    rw [if_pos hfound]
    refine ⟨hname.stripped, glmPairs_params ?_ hp hdistinct fun _ _ => List.not_mem_nil⟩
    -- a parameter has more than one character
    have hlong : ∀ l : List (List Char × List Char), l.length ≤ (glmParams l).length := by
      intro l
      induction l with
      | nil => exact le_rfl
      | cons q l ih =>
        have htag : keyOpen.length = 9 := rfl
        unfold glmParams at ih ⊢
        rw [List.flatMap_cons, List.length_append, List.length_cons, glmArgument]
        simp only [List.length_append]
        omega
    have hrest := hlong rest
    simp only [List.length_append, List.length_cons]
    omega

/-- **The block parser reads one call back.** -/
theorem glmBlock_written (hname : GlmName name) (hp : ∀ p ∈ params, GlmParam p)
    (hdistinct : (params.map fun q => String.ofList q.1).Nodup)
    (hreads : ∀ p ∈ params, ValueReads lib (declaredType types name p.1) p.2) :
    glmBlock lib types (name ++ glmParams params) =
      (lib.dumps (.obj (coercedArguments lib (declaredType types name) [] params))).map
        fun text => some [⟨name, text⟩] := by
  obtain ⟨hread, hpairs⟩ := glmBlock_read hname hp hdistinct
  have hnamed : glmNamed (name ++ glmParams params) = true := by
    unfold glmNamed
    rw [hread]
    have hword : (name.any fun ch => isSpace ch || ch == '<' || ch == '>') = false := by
      rw [List.any_eq_false]
      intro ch hch
      obtain ⟨h₁, h₂, h₃⟩ := hname.word ch hch
      simp [h₁, h₂, h₃]
    rw [hword, List.isEmpty_eq_false_iff.mpr hname.spelled]
    rfl
  obtain ⟨-, heq⟩ := glmBlockArguments_spec lib types (name ++ glmParams params)
  rw [hread, hpairs] at heq
  rw [glmBlock_named lib types hnamed, heq hreads, if_pos rfl, ok_bind]
  unfold glmCall
  simp only [hread]
  cases lib.dumps (.obj (coercedArguments lib (declaredType types name) [] params)) <;> rfl

/-- Whitespace around a block of a call is not there. -/
theorem stripChars_glmBlock (hname : GlmName name) (params : List (List Char × List Char)) :
    stripChars (name ++ glmParams params) = name ++ glmParams params := by
  rcases glmParams_shape params with rfl | ⟨l, hl⟩
  · have hbare : name ++ glmParams [] = name := List.append_nil name
    rw [hbare, hname.stripped]
  · obtain ⟨c, tail, rfl⟩ := List.exists_cons_of_ne_nil hname.spelled
    rw [hl, show c :: tail ++ '<' :: (l ++ ['>']) = c :: ((tail ++ '<' :: l) ++ ['>']) by simp]
    exact stripChars_markup (hname.word c List.mem_cons_self).1 (by decide) _

/-- A tag in front of which nothing of a text counts. -/
theorem skips_value {t v close : List Char} (htail : '<' ∉ t.tail)
    (hclose : close.head? = some '<') (hclean : Skips t close) (hv : ¬ t <:+: v) :
    Skips t (v ++ close) := by
  intro rest k hk hp
  rcases Nat.lt_or_ge k v.length with hlt | hge
  · obtain ⟨close', rfl⟩ : ∃ l, close = '<' :: l := by
      cases close with
      | nil => cases hclose
      | cons c l => cases hclose; exact ⟨l, rfl⟩
    rw [List.append_assoc, List.cons_append] at hp
    exact hv ((tag_in_front htail hlt hp).isInfix.trans (List.drop_suffix _ _).isInfix)
  · rw [List.length_append] at hk
    rw [show k = v.length + (k - v.length) by omega, ← List.drop_drop, List.append_assoc,
      List.drop_left] at hp
    exact hclean rest _ (by omega) hp

/-- No close of a block in its name and parameters. -/
theorem glmBlock_skips (hname : GlmName name) (hp : ∀ p ∈ params, GlmParam p) :
    Skips toolClose (name ++ glmParams params) := by
  have htag : ∀ {t : List Char}, '<' ∉ t.tail → (∀ rest, ¬ toolClose <+: t ++ rest) →
      Skips toolClose t := fun h₁ h₂ => .tag rfl h₁ h₂
  have hvalueClose : Skips toolClose valueClose := htag (by decide) fun rest => by
    simp [toolClose, valueClose]
  refine (skips_of_notMem hname.noOpen).append (skips_flatMap fun p hmem => ?_)
  obtain ⟨hkey, -, hinside⟩ := hp p hmem
  refine (((htag (by decide) fun rest => by simp [toolClose, keyOpen]).append
    (skips_of_notMem hkey.noOpen)).append
      (htag (by decide) fun rest => by simp [toolClose, keyClose])).append ?_
  rw [List.append_assoc]
  exact (htag (by decide) fun rest => by simp [toolClose, valueOpen]).append
    (skips_value (by decide) rfl hvalueClose hinside)

end Block

/-! ## 4. The calls of a completion -/

/-- A call of the text: what stands in front of it, and the texts of its values. -/
structure GlmItem where
  gap : List Char
  call : TemplateCall
  params : List (List Char × List Char)

def GlmItem.body (a : GlmItem) : List Char := a.call.name ++ glmParams a.params

section Calls

variable {lib : JsonLib} {tojson : Json → Except JsonError (List Char)}
  {types : Dict String (Dict String String)}

/-- The parameters hold the texts of the values. -/
def GlmItem.Faithful (tojson : Json → Except JsonError (List Char)) (a : GlmItem) : Prop :=
  List.Forall₂ (fun e p => p.1 = e.1.toList ∧ glmRendered tojson e.2 = .ok p.2) a.call.arguments
    a.params

theorem renderGlmArguments_ok : ∀ {fields : Fields} {text : List Char},
    renderGlmArguments tojson fields = .ok text →
      ∃ params, List.Forall₂ (fun e p => p.1 = e.1.toList ∧ glmRendered tojson e.2 = .ok p.2)
        fields params ∧ text = glmParams params
  | [], _, h => by
      cases h
      exact ⟨[], .nil, rfl⟩
  | (key, v) :: rest, _, h => by
      unfold renderGlmArguments at h
      obtain ⟨value, hvalue, h⟩ := bind_ok h
      obtain ⟨others, hothers, h⟩ := bind_ok h
      cases h
      obtain ⟨params, hparams, rfl⟩ := renderGlmArguments_ok hothers
      exact ⟨(key.toList, value) :: params, .cons ⟨rfl, hvalue⟩ hparams, rfl⟩

theorem renderGlmCalls_ok : ∀ {calls : List TemplateCall} {texts : List (List Char)},
    calls.mapM (renderGlmCall tojson) = .ok texts →
      ∃ items : List GlmItem, items.map GlmItem.call = calls ∧
        (∀ a ∈ items, a.Faithful tojson ∧ a.gap = []) ∧
        texts.flatten = items.flatMap fun a => chunkText a.gap a.body
  | [], _, h => by
      cases h
      exact ⟨[], rfl, by simp, rfl⟩
  | c :: calls, _, h => by
      rw [List.mapM_cons] at h
      obtain ⟨text, htext, h⟩ := bind_ok h
      obtain ⟨texts, htexts, h⟩ := bind_ok h
      cases h
      unfold renderGlmCall at htext
      obtain ⟨parameters, hparameters, htext⟩ := bind_ok htext
      cases htext
      obtain ⟨params, hparams, rfl⟩ := renderGlmArguments_ok hparameters
      obtain ⟨items, hitems, hall, hflat⟩ := renderGlmCalls_ok htexts
      refine ⟨⟨[], c, params⟩ :: items, by rw [List.map_cons, hitems],
        List.forall_mem_cons.mpr ⟨⟨hparams, rfl⟩, hall⟩, ?_⟩
      rw [List.flatten_cons, List.flatMap_cons, hflat]
      rfl

/-- What the parser makes of a rendered value. -/
theorem coerced_glm (hjson : JsonTrip tojson lib) {v : Json} {text : List Char}
    {declared : Option String} (hw : Writable v) (hfin : finiteNumbers v = true)
    (htyped : (∃ s, v = .str s) ↔ declaresText declared = true)
    (h : glmRendered tojson v = .ok text) :
    coerced lib text declared = v ∧ ValueReads lib declared text := by
  unfold coerced ValueReads
  by_cases hdeclared : declaresText declared = true
  · obtain ⟨s, rfl⟩ := htyped.mpr hdeclared
    cases h
    rw [if_pos hdeclared, String.ofList_toList, hdeclared]
    exact ⟨rfl, nofun⟩
  · have hread : lib.loads text = .ok v := by
      cases v with
      | str s => exact absurd (htyped.mp ⟨s, rfl⟩) hdeclared
      | _ => exact hjson.reads hw hfin h
    rw [if_neg hdeclared, hread]
    exact ⟨rfl, fun _ e he => by cases he⟩

/-- Distinct keys are kept in order. -/
theorem coercedArguments_new (declared : List Char → Option String) :
    ∀ {params : List (List Char × List Char)} {d : Fields},
      (d.map Prod.fst ++ params.map fun p => String.ofList p.1).Nodup →
        coercedArguments lib declared d params =
          d ++ params.map fun p => (String.ofList p.1, coerced lib p.2 (declared p.1))
  | [], d, _ => (List.append_nil d).symm
  | p :: params, d, h => by
      have hnew : String.ofList p.1 ∉ d.map Prod.fst := fun hm =>
        (List.nodup_append.mp h).2.2 _ hm _ List.mem_cons_self rfl
      have hset : Fields.set d (String.ofList p.1) (coerced lib p.2 (declared p.1)) =
          d ++ [(String.ofList p.1, coerced lib p.2 (declared p.1))] := set_of_new d _ hnew
      show coercedArguments lib declared (Fields.set d (String.ofList p.1)
        (coerced lib p.2 (declared p.1))) params = _
      rw [hset, coercedArguments_new declared (by simpa using h), List.append_assoc]
      rfl

variable {a : GlmItem}

/-- The parameters of a call that the template can be given. -/
theorem GlmItem.Faithful.params (h : a.Faithful tojson) (hcall : a.call.GlmRenderable tojson types) :
    (∀ p ∈ a.params, GlmParam p) ∧ (a.params.map fun q => String.ofList q.1).Nodup := by
  constructor
  · intro p hp
    obtain ⟨e, he, hkey, htext⟩ := forall₂_right h p hp
    obtain ⟨hvalue, hinside⟩ := hcall.unclosed e he p.2 htext
    exact ⟨hkey ▸ hcall.keys e he, hvalue, hinside⟩
  · have hkeys : (a.params.map fun q => String.ofList q.1) = a.call.arguments.map Prod.fst := by
      rw [← List.forall₂_eq_eq_eq, List.forall₂_map_left_iff, List.forall₂_map_right_iff]
      refine h.flip.imp fun p e hpe => ?_
      rw [hpe.1, String.ofList_toList]
    rw [hkeys]
    exact hcall.distinct

/-- **The arguments come back.** -/
theorem GlmItem.Faithful.arguments (hjson : JsonTrip tojson lib) (h : a.Faithful tojson)
    (hcall : a.call.GlmRenderable tojson types) :
    coercedArguments lib (declaredType types a.call.name) [] a.params = a.call.arguments ∧
      ∀ p ∈ a.params, ValueReads lib (declaredType types a.call.name p.1) p.2 := by
  have hvalue : ∀ e ∈ a.call.arguments, ∀ p : List Char × List Char, p.1 = e.1.toList →
      glmRendered tojson e.2 = .ok p.2 →
        coerced lib p.2 (declaredType types a.call.name p.1) = e.2 ∧
          ValueReads lib (declaredType types a.call.name p.1) p.2 := by
    intro e he p hkey htext
    obtain ⟨hw, hfin⟩ := hcall.values e he
    exact coerced_glm hjson hw hfin (hkey ▸ hcall.typed e he) htext
  constructor
  · rw [coercedArguments_new _ (by simpa using (h.params hcall).2), List.nil_append,
      ← List.forall₂_eq_eq_eq, List.forall₂_map_left_iff]
    have hmem : ∀ {l : Fields} {m : List (List Char × List Char)}, (∀ e ∈ l, e ∈ a.call.arguments) →
        List.Forall₂ (fun e p => p.1 = e.1.toList ∧ glmRendered tojson e.2 = .ok p.2) l m →
          List.Forall₂ (fun p e => (String.ofList p.1,
            coerced lib p.2 (declaredType types a.call.name p.1)) = e) m l := by
      intro l m hl hlm
      induction hlm with
      | nil => exact .nil
      | @cons e p l m hep _ ih =>
        obtain ⟨he, hl⟩ := List.forall_mem_cons.mp hl
        refine .cons (Prod.ext ?_ (hvalue e he p hep.1 hep.2).1) (ih hl)
        rw [hep.1, String.ofList_toList]
    exact hmem (fun _ he => he) h
  · intro p hp
    obtain ⟨e, he, hkey, htext⟩ := forall₂_right h p hp
    exact (hvalue e he p hkey htext).2

/-- The call that comes back. -/
def sentCall (lib : JsonLib) (c : TemplateCall) : Except JsonError ParsedCall :=
  (lib.dumps (.obj c.arguments)).map fun text => ⟨c.name, text⟩

/-- A call behind a gap without an opener is parsed as it was put. -/
theorem GlmItem.Faithful.holds (hjson : JsonTrip tojson lib) (h : a.Faithful tojson)
    (hcall : a.call.GlmRenderable tojson types) {gap : List Char} (hgap : SkipsTo toolOpen gap) :
    HoldsOne (glmBlock lib types) gap a.body (sentCall lib a.call) := by
  obtain ⟨hparams, hdistinct⟩ := h.params hcall
  obtain ⟨harguments, hreads⟩ := h.arguments hjson hcall
  refine ⟨hgap, .of_skips (glmBlock_skips hcall.name hparams), ?_⟩
  rw [GlmItem.body, stripChars_glmBlock hcall.name,
    glmBlock_written hcall.name hparams hdistinct hreads, harguments]
  unfold sentCall
  cases lib.dumps (.obj a.call.arguments) <;> rfl

end Calls

/-! ## 5. What stands in front of the calls -/

/-- The reasoning itself. -/
def ReasoningPart.body : ReasoningPart → Option (List Char)
  | .absent => none
  | .closed r => some r
  | .implicit r => some r

/-- What is extracted of it: nothing where it is blank. -/
def ReasoningPart.extracted (p : ReasoningPart) : Option (List Char) :=
  p.body.bind fun r => if stripChars r = [] then none else some (stripChars r)

/-- Reasoning and content as they are written. -/
def GlmCompletion.lead (m : GlmCompletion) : List Char := m.reasoning.text ++ m.content

/-- The same with the reasoning closed. -/
def GlmCompletion.closedLead (m : GlmCompletion) : List Char :=
  match m.reasoning.body with
  | none => m.content
  | some r => reasoned r ++ m.content

/-- What is visible of it. -/
def GlmCompletion.shown (m : GlmCompletion) : List Char :=
  match m.reasoning.body with
  | none => m.content
  | some _ => m.content.dropWhile (· == '\n')

section Lead

variable {tojson : Json → Except JsonError (List Char)} {types : Dict String (Dict String String)}
  {r c : List Char}

theorem closeImplicit_reasoned (hr : NoMarkup r) (hc : NoMarkup c) :
    closeImplicit (reasoned r ++ c) = reasoned r ++ c := by
  have hrest : ¬ thinkOpen <:+: r ++ thinkClose ++ c :=
    not_infix_joined (by decide) (by decide) (by decide) hr.opener hc.opener
  have htext : reasoned r ++ c = thinkOpen ++ (r ++ thinkClose ++ c) := by
    simp only [reasoned, List.append_assoc]
  have hbehind : lastBehind thinkOpen thinkClose (reasoned r ++ c) = false := by
    unfold lastBehind
    split
    · next i j hi hj =>
      have hzero : i = 0 := by
        by_contra hne
        have hat := rfind_isInfix hi
        rw [htext, show i = 1 + (i - 1) by omega, ← List.drop_drop] at hat
        have hin : thinkOpen <:+: thinkOpen.tail ++ (r ++ thinkClose ++ c) :=
          hat.isInfix.trans (List.drop_suffix _ _).isInfix
        exact hrest (infix_behind (skips_of_notMem (by decide)) hin)
      rw [hzero]
      exact decide_eq_false (Nat.not_lt_zero j)
    · next i hi hj =>
      have hat : thinkClose <+: (reasoned r ++ c).drop (thinkOpen ++ r).length := by
        rw [show reasoned r ++ c = (thinkOpen ++ r) ++ (thinkClose ++ c) by
          simp only [reasoned, List.append_assoc], List.drop_left]
        exact List.prefix_append _ _
      obtain ⟨j, hj', -⟩ := rfind_ge (by decide) hat
      rw [hj] at hj'
      cases hj'
    · rfl
  unfold closeImplicit
  rw [hbehind]
  rfl

theorem closeImplicit_open (hr : NoMarkup r) : closeImplicit (thinkOpen ++ r) = reasoned r := by
  have hclose : ¬ thinkClose <:+: thinkOpen ++ r := fun h =>
    hr.closer (infix_behind (.tag rfl (by decide) fun rest => by simp [thinkClose, thinkOpen]) h)
  have hat : thinkOpen <+: (thinkOpen ++ r).drop 0 := List.prefix_append thinkOpen r
  obtain ⟨i, hi, -⟩ := rfind_ge (by decide) hat
  unfold closeImplicit lastBehind
  rw [hi, rfind_none hclose]
  rfl

variable {m : GlmCompletion}

/-- **Reasoning is closed in front of the first call**, where it is still open. -/
theorem GlmCompletion.WellFormed.closed (h : m.WellFormed tojson types) :
    closeImplicit m.lead = m.closedLead ∧ (m.calls = [] → m.lead = m.closedLead) := by
  have hplain := h.reasoning
  unfold lead closedLead
  cases hm : m.reasoning with
  | absent => exact ⟨closeImplicit_none h.content.opener, fun _ => rfl⟩
  | closed r =>
    rw [hm] at hplain
    exact ⟨closeImplicit_reasoned hplain h.content, fun _ => rfl⟩
  | implicit r =>
    rw [hm] at hplain
    obtain ⟨hcontent, hcalls⟩ := h.implicit r hm
    refine ⟨?_, fun hnil => absurd hnil hcalls⟩
    rw [hcontent, List.append_nil]
    exact (closeImplicit_open hplain).trans (List.append_nil _).symm

/-- No call starts in front of the calls. -/
theorem GlmCompletion.WellFormed.no_tool (h : m.WellFormed tojson types) :
    ¬ toolOpen <:+: m.lead ∧ ¬ toolOpen <:+: m.shown := by
  have hplain := h.reasoning
  have hopen : ∀ {p : List Char}, ¬ toolOpen <:+: p → ¬ toolOpen <:+: thinkOpen ++ p := fun hp h =>
    hp (infix_behind (.tag rfl (by decide) fun rest => by simp [toolOpen, thinkOpen]) h)
  have hdrop : ¬ toolOpen <:+: m.content.dropWhile (· == '\n') := fun h' =>
    h.content.tool (h'.trans (List.dropWhile_suffix _).isInfix)
  unfold lead shown
  cases hm : m.reasoning with
  | absent => exact ⟨h.content.tool, h.content.tool⟩
  | closed r =>
    rw [hm] at hplain
    refine ⟨?_, hdrop⟩
    have hrest : ¬ toolOpen <:+: r ++ thinkClose ++ m.content :=
      not_infix_joined (by decide) (by decide) (by decide) hplain.tool h.content.tool
    simpa only [ReasoningPart.text, reasoned, List.append_assoc] using hopen hrest
  | implicit r =>
    rw [hm] at hplain
    refine ⟨?_, hdrop⟩
    rw [(h.implicit r hm).1, List.append_nil]
    exact hopen hplain.tool

/-- **What is visible in front of the calls** is the content, up to line breaks. -/
theorem GlmCompletion.WellFormed.strip (isAlnum : Char → Bool) (h : m.WellFormed tojson types) :
    stripReasoning isAlnum m.closedLead = m.shown ∧ stripChars m.shown = stripChars m.content := by
  have hplain := h.reasoning
  have htrim : stripChars (m.content.dropWhile (· == '\n')) = stripChars m.content := by
    have hblank : (m.content.takeWhile (· == '\n')).all isSpace = true :=
      List.all_eq_true.mpr fun c hc => by
        rw [eq_of_beq (List.mem_takeWhile_imp (p := (· == '\n')) hc)]
        rfl
    conv_rhs => rw [← List.takeWhile_append_dropWhile (p := (· == '\n')) (l := m.content)]
    exact (stripChars_blank_append hblank _).symm
  unfold closedLead shown
  cases hm : m.reasoning with
  | absent => exact ⟨strip_plain isAlnum h.content, rfl⟩
  | closed r =>
    rw [hm] at hplain
    exact ⟨strip_reasoned isAlnum hplain h.content, htrim⟩
  | implicit r =>
    rw [hm] at hplain
    exact ⟨strip_reasoned isAlnum hplain h.content, htrim⟩

/-- What is extracted in front of the calls; without reasoning nothing closes there. -/
theorem GlmCompletion.WellFormed.extract (isAlnum : Char → Bool) (h : m.WellFormed tojson types) :
    (thinkClose <:+: m.closedLead →
      extractReasoning isAlnum m.closedLead = m.reasoning.extracted) ∧
    (¬ thinkClose <:+: m.closedLead → m.reasoning.extracted = none) := by
  have hplain := h.reasoning
  have hclose : ∀ r, thinkClose <:+: reasoned r ++ m.content := fun r =>
    ⟨thinkOpen ++ r, m.content, rfl⟩
  unfold closedLead
  cases hm : m.reasoning with
  | absent => exact ⟨fun hin => absurd hin h.content.closer, fun _ => rfl⟩
  | closed r =>
    rw [hm] at hplain
    exact ⟨fun _ => extract_reasoned isAlnum hplain h.content, fun hno => absurd (hclose r) hno⟩
  | implicit r =>
    rw [hm] at hplain
    exact ⟨fun _ => extract_reasoned isAlnum hplain h.content, fun hno => absurd (hclose r) hno⟩

end Lead

/-! ## 6. The whole completion -/

/-- The completion comes back: its content stripped, its calls with their arguments, and what it
    reasoned. -/
def GlmCompletion.ComesBack (isAlnum : Char → Bool) (lib : JsonLib) (tools : Json)
    (m : GlmCompletion) (text : List Char) : Prop :=
  (∃ parsed, (ToolDialect.block .glm47).parseCompletion lib (glmReasoning isAlnum) text tools =
      .ok (stripChars m.content, parsed) ∧
    List.Forall₂ (fun c p => p.name = c.name ∧ lib.dumps (.obj c.arguments) = .ok p.arguments)
      m.calls parsed) ∧
  (glmReasoning isAlnum).extract text = m.reasoning.extracted

section Whole

variable {lib : JsonLib} {tojson : Json → Except JsonError (List Char)}

/-- The text of a completion as blocks and a tail: the gap of the first block is what stands in
    front of the calls. -/
theorem GlmCompletion.render_ok {m : GlmCompletion} {text : List Char}
    (h : m.render tojson = .ok text) : ∃ items : List GlmItem, items.map GlmItem.call = m.calls ∧
      (∀ a ∈ items, a.Faithful tojson) ∧
      ((items = [] ∧ text = m.lead) ∨ ∃ a rest, items = a :: rest ∧ (∀ b ∈ rest, b.gap = []) ∧
        text = chunkText m.lead a.body ++ rest.flatMap fun b => chunkText b.gap b.body) := by
  unfold render at h
  obtain ⟨texts, htexts, h⟩ := bind_ok h
  cases h
  obtain ⟨items, hitems, hall, hflat⟩ := renderGlmCalls_ok htexts
  refine ⟨items, hitems, fun a ha => (hall a ha).1, ?_⟩
  cases items with
  | nil =>
    refine .inl ⟨rfl, ?_⟩
    rw [hflat]
    exact List.append_nil _
  | cons a rest =>
    obtain ⟨ha, hrest⟩ := List.forall_mem_cons.mp hall
    refine .inr ⟨a, rest, rfl, fun b hb => (hrest b hb).2, ?_⟩
    rw [hflat, List.flatMap_cons, ha.2]
    simp only [chunkText, lead, List.append_assoc, List.nil_append]

/-- The segments of a text whose calls follow one another. -/
theorem segments_calls {m : GlmCompletion} {types : Dict String (Dict String String)}
    (h : m.WellFormed tojson types) {a : GlmItem} {rest : List GlmItem} {text : List Char}
    (hbodies : ∀ b ∈ a :: rest, SkipsTo toolClose b.body) (hgaps : ∀ b ∈ rest, b.gap = [])
    (htext : text = chunkText m.lead a.body ++ rest.flatMap fun b => chunkText b.gap b.body) :
    segments text = (m.closedLead, false) :: (toolOpen ++ a.body ++ toolClose, true) ::
      ((rest.flatMap fun b => [([], false), (toolOpen ++ b.body ++ toolClose, true)]) ++
        [([], false)]) := by
  have hitems : ∀ b ∈ { a with gap := m.lead } :: rest,
      SkipsTo toolOpen b.gap ∧ SkipsTo toolClose b.body := by
    obtain ⟨ha, hrest⟩ := List.forall_mem_cons.mp hbodies
    refine List.forall_mem_cons.mpr
      ⟨⟨skipsTo_of_not_isInfix rfl (by decide) h.no_tool.1, ha⟩, fun b hb => ⟨?_, hrest b hb⟩⟩
    rw [hgaps b hb]
    exact fun k hk => absurd hk (Nat.not_lt_zero k)
  have hflat : text = [] ++ (({ a with gap := m.lead } :: rest).flatMap fun b =>
      chunkText b.gap b.body) ++ [] := by
    rw [htext, List.flatMap_cons, List.nil_append, List.append_nil]
    rfl
  have hlen := chunks_length GlmItem.gap GlmItem.body ({ a with gap := m.lead } :: rest)
  have hplaced := segments_placed (by decide : ¬ toolOpen <:+: []) ({ a with gap := m.lead } :: rest)
    [] text.length (by rw [hflat, List.nil_append, List.append_nil]; exact hlen) hitems hflat
  have hblank : closeImplicit [] = [] := by decide
  unfold segments
  rw [List.length_nil] at hplaced
  rw [hplaced, List.flatMap_cons, h.closed.1]
  have hsame : (rest.flatMap fun b =>
      [(closeImplicit b.gap, false), (toolOpen ++ b.body ++ toolClose, true)]) =
      rest.flatMap fun b => [([], false), (toolOpen ++ b.body ++ toolClose, true)] := by
    refine List.flatMap_congr fun b hb => ?_
    rw [hgaps b hb, hblank]
  rw [hsame]
  rfl

/-- The calls of the items can be sent. -/
theorem sentCalls_return (hjson : JsonTrip tojson lib) {items : List GlmItem}
    (hfaithful : ∀ a ∈ items, a.Faithful tojson) :
    ∃ parsed, items.mapM (fun a => sentCall lib a.call) = .ok parsed ∧
      List.Forall₂ (fun c p => p.name = c.name ∧ lib.dumps (.obj c.arguments) = .ok p.arguments)
        (items.map GlmItem.call) parsed := by
  have hwritten : ∀ a ∈ items, Returns (sentCall lib a.call) := fun a ha => by
    obtain ⟨t, ht⟩ := hjson.writes fun e he => by
      obtain ⟨p, -, -, hp⟩ := forall₂_left (hfaithful a ha) e he
      exact ⟨p.2, hp⟩
    exact ⟨⟨a.call.name, t⟩, by rw [sentCall, ht]; rfl⟩
  obtain ⟨parsed, hparsed⟩ := returns_mapM.mpr hwritten
  refine ⟨parsed, hparsed, ?_⟩
  rw [List.forall₂_map_left_iff]
  refine (mapM_ok_iff.mp hparsed).imp fun a p hp => ?_
  unfold sentCall at hp
  cases hd : lib.dumps (.obj a.call.arguments) with
  | error e =>
    rw [hd] at hp
    cases hp
  | ok t =>
    rw [hd] at hp
    cases hp
    exact ⟨rfl, rfl⟩

/-- **GLM completions come back**: `GLMReasoning` and `GLMToolParser` undo the template together. -/
theorem glm_round_trip (isAlnum : Char → Bool) (hjson : JsonTrip tojson lib) (tools : Json)
    {m : GlmCompletion} {text : List Char} (h : m.WellFormed tojson (parameterTypes tools))
    (hrender : m.render tojson = .ok text) : m.ComesBack isAlnum lib tools text := by
  obtain ⟨items, hitems, hfaithful, htext⟩ := GlmCompletion.render_ok hrender
  have hcalls : ∀ a ∈ items, a.call.GlmRenderable tojson (parameterTypes tools) := fun a ha =>
    h.calls _ (hitems ▸ List.mem_map_of_mem ha)
  obtain ⟨hstrip, htrim⟩ := h.strip isAlnum
  obtain ⟨hfound, hmissing⟩ := h.extract isAlnum
  obtain ⟨parsed, hparsed, hsame⟩ := sentCalls_return hjson hfaithful
  rw [hitems] at hsame
  -- the first segment closes where anything was reasoned, and no other one does
  have hextract : ∀ {segs : List (List Char × Bool)},
      (∀ s ∈ segs, (!s.2 && (find thinkClose s.1 0).isSome) = false) →
      segments text = (m.closedLead, false) :: segs →
        glmExtract isAlnum text = m.reasoning.extracted := by
    intro segs hsegs hseg
    unfold glmExtract
    rw [hseg, List.find?_cons]
    by_cases hclose : thinkClose <:+: m.closedLead
    · rw [(find_isSome (by decide)).mpr hclose]
      exact hfound hclose
    · have hnone : (find thinkClose m.closedLead 0).isSome = false := by
        rw [Bool.eq_false_iff]
        exact fun hs => hclose ((find_isSome (by decide)).mp hs)
      have hno : (segs.find? fun s => !s.2 && (find thinkClose s.1 0).isSome) = none :=
        List.find?_eq_none.mpr fun s hs => by rw [hsegs s hs]; exact Bool.false_ne_true
      rw [hnone, hno]
      exact (hmissing hclose).symm
  rcases htext with ⟨rfl, htext⟩ | ⟨a, rest, rfl, hgaps, htext⟩
  · -- no call: one segment
    have hnil : m.calls = [] := hitems.symm
    have hclosed := h.closed.2 hnil
    have hseg : segments text = [(m.closedLead, false)] := by
      have htool : ¬ toolOpen <:+: text.drop 0 := htext ▸ h.no_tool.1
      have hrest : segmentsFrom text text.length 0 = [(text.drop 0, false)] :=
        segmentsFrom_rest htool _
      unfold segments
      rw [hrest, ← hclosed, ← htext]
      rfl
    refine ⟨⟨[], ?_, hnil ▸ .nil⟩, hextract (by simp) hseg⟩
    show parse _ (glmStrip isAlnum text) = _
    have hshown : glmStrip isAlnum text = m.shown := by
      unfold glmStrip
      rw [hseg]
      simpa using hstrip
    rw [hshown, parse_no_call _ h.no_tool.2, htrim]
  · have hbodies : ∀ b ∈ a :: rest, SkipsTo toolClose b.body := fun b hb =>
      .of_skips (glmBlock_skips (hcalls b hb).name ((hfaithful b hb).params (hcalls b hb)).1)
    have hseg := segments_calls h hbodies hgaps htext
    refine ⟨⟨parsed, ?_, hsame⟩, hextract ?_ hseg⟩
    · -- the stripped text is a text of blocks again
      have hshown : glmStrip isAlnum text =
          (({ a with gap := m.shown } :: rest).flatMap fun b => chunkText b.gap b.body) ++ [] := by
        have hrest : (rest.flatMap fun b =>
            [(([] : List Char), false), (toolOpen ++ b.body ++ toolClose, true)]).flatMap
              (fun s => if s.2 then s.1 else stripReasoning isAlnum s.1) =
            rest.flatMap fun b => chunkText b.gap b.body := by
          rw [List.flatMap_assoc]
          refine List.flatMap_congr fun b hb => ?_
          rw [hgaps b hb]
          simp [chunkText, strip_plain isAlnum (NoMarkup.of_notMem List.not_mem_nil)]
        unfold glmStrip
        rw [hseg, List.flatMap_cons, List.flatMap_cons, List.flatMap_append, hrest]
        simp [chunkText, GlmItem.body, hstrip,
          strip_plain isAlnum (NoMarkup.of_notMem List.not_mem_nil)]
      have hholds : ∀ b ∈ { a with gap := m.shown } :: rest,
          HoldsOne (glmBlock lib (parameterTypes tools)) b.gap b.body (sentCall lib b.call) := by
        refine List.forall_mem_cons.mpr ⟨?_, fun b hb => ?_⟩
        · exact (hfaithful a List.mem_cons_self).holds hjson (hcalls a List.mem_cons_self)
            (skipsTo_of_not_isInfix rfl (by decide) h.no_tool.2)
        · rw [hgaps b hb]
          exact (hfaithful b (List.mem_cons_of_mem _ hb)).holds hjson
            (hcalls b (List.mem_cons_of_mem _ hb)) fun k hk => absurd hk (Nat.not_lt_zero k)
      show parse (glmBlock lib (parameterTypes tools)) (glmStrip isAlnum text) = _
      have hnone : rest.flatMap GlmItem.gap = [] :=
        List.flatMap_eq_nil_iff.mpr hgaps
      rw [hshown, parse_chunks (by decide) hholds, List.flatMap_cons, hnone, List.append_nil,
        List.append_nil, htrim]
      have hmap : ({ a with gap := m.shown } :: rest).mapM (fun b => sentCall lib b.call) =
          .ok parsed := hparsed
      rw [hmap]
      rfl
    · intro s hs
      simp only [List.mem_cons, List.mem_append, List.mem_flatMap] at hs
      rcases hs with rfl | ⟨b, -, rfl | rfl | hnil⟩ | rfl | hnil
      · rfl
      · rfl
      · rfl
      · cases hnil
      · rfl
      · cases hnil

end Whole

/-! ## 7. A completion -/

theorem dumpsJson_trip : JsonTrip dumpsJson (pythonJson exactRepr) where
  reads hw hfin h := by
    cases h
    show decodedOr (loads (dumps exactRepr _)) = _
    rw [loads_dumps exactRepr_reads hw, if_pos hfin]
    rfl
  writes _ := ⟨_, rfl⟩

/-- A call whose text spells tags. -/
def tagged : TemplateCall := ⟨['f'], [("k", .str "</think><tool_call> ")]⟩

/-- Reasoning that the call ends. -/
def taggedCompletion : GlmCompletion := ⟨.implicit ['r'], [], [tagged]⟩

theorem tagged_wellFormed : taggedCompletion.WellFormed dumpsJson (parameterTypes textTool) where
  reasoning := ⟨by decide, by decide, by decide⟩
  content := ⟨by decide, by decide, by decide⟩
  implicit _ _ := ⟨rfl, by decide⟩
  calls := by
    have hk : declaresText (declaredType (parameterTypes textTool) ['f'] ['k']) = true := by
      decide +kernel
    have hname : GlmName ['f'] := ⟨by decide, List.forall_mem_singleton.mpr (by decide)⟩
    refine List.forall_mem_singleton.mpr ⟨hname, ?_, by decide, ?_, ?_, ?_⟩
    · exact List.forall_mem_singleton.mpr ⟨by decide, by decide, by decide, by decide⟩
    · exact List.forall_mem_singleton.mpr ⟨trivial, rfl⟩
    · exact List.forall_mem_singleton.mpr ⟨fun _ => hk, fun _ => ⟨_, rfl⟩⟩
    · refine List.forall_mem_singleton.mpr ?_
      rintro text ⟨⟩
      decide +kernel

/-- A value that spells tags comes back, behind reasoning that was never closed. -/
theorem glm_round_trip_tagged :
    taggedCompletion.ComesBack Char.isAlphanum (pythonJson exactRepr) textTool
      (thinkOpen ++ ['r'] ++ toolOpen ++ ['f'] ++
        glmArgument ['k'] "</think><tool_call> ".toList ++ toolClose) :=
  glm_round_trip Char.isAlphanum dumpsJson_trip textTool tagged_wellFormed rfl

end RolloutProxy.ToolParser
