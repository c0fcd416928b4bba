/-
  File:      RolloutProxy/ToolParser/QwenRoundTrip.lean
  Subject:   THE ROUND TRIP of a message's calls: the text of the Qwen template, parsed.

  * A label that spells a closer leaves its block without a call, so the block stays in the content
    (`spoiled_content`).
  * Every other block is parsed; a value comes back unless it is itself a boolean or null, which the
    template spells as Python does (`coerced_rendered`).
-/
import RolloutProxy.ToolParser.QwenTemplate

namespace RolloutProxy.ToolParser

open Reasoning

/-! ## 1. A label that spells a closer -/

/-- A text without the last character of a closer runs up to the closer. -/
theorem skipsTo_open {t l : List Char} (ht : t ∈ xmlClosers) (hl : '>' ∉ l) : SkipsTo t l := by
  obtain ⟨hlast, hbody, -, hend, -⟩ := closer_last t ht
  intro k hk hp
  have hsplit : l ++ t = (l ++ t.dropLast) ++ ['>'] := by
    rw [List.append_assoc, ← hlast]
  have hget := getElem_marker hp hend
  rw [hsplit, List.getElem?_append_left (by rw [List.length_append]; omega)] at hget
  exact (List.mem_append.mp (List.mem_of_getElem? hget)).elim hl hbody

/-- The label, cut in front of the closer. -/
theorem Spells.cut {t label : List Char} (ht : t ∈ xmlClosers) (h : Spells t label)
    (hlabel : '>' ∉ label) : ∃ z, label ++ ['>'] = z ++ t ∧ '>' ∉ z := by
  obtain ⟨z, hz⟩ := h
  obtain ⟨hlast, -⟩ := closer_last t ht
  refine ⟨z, ?_, fun hm => hlabel (hz ▸ List.mem_append_left _ hm)⟩
  rw [← hz, List.append_assoc, ← hlast]

/-- The first occurrence of a text. -/
theorem first_occurrence {t l : List Char} (hne : t ≠ []) (h : t <:+: l) :
    ∃ a b, l = a ++ t ++ b ∧ SkipsTo t a := by
  have hfind : find t l 0 ≠ none := fun hn => by
    obtain ⟨a, b, hab⟩ := h
    refine find_none hne hn a.length (Nat.zero_le _) ?_
    rw [← hab, List.append_assoc, List.drop_left]
    exact List.prefix_append _ _
  obtain ⟨i, hi⟩ := Option.ne_none_iff_exists'.mp hfind
  obtain ⟨-, hat, hbefore⟩ := find_some hi
  obtain ⟨b, hb⟩ := hat
  have hlen := length_le_of_at hne ⟨b, hb⟩
  refine ⟨l.take i, b, ?_, fun k hk hp => ?_⟩
  · rw [List.append_assoc, hb, List.take_append_drop]
  · rw [List.length_take] at hk
    refine hbefore k (Nat.zero_le _) (by omega) ?_
    have hl : l = l.take i ++ t ++ b := by rw [List.append_assoc, hb, List.take_append_drop]
    rw [hl, List.drop_append_of_le_length (by rw [List.length_append, List.length_take]; omega)]
    exact hp.trans (List.prefix_append _ _)

theorem infix_stripped (l : List Char) : stripChars l <:+: l := by
  unfold stripChars
  have hback := (List.dropWhile_suffix (l := (l.dropWhile isSpace).reverse) isSpace).reverse
  rw [List.reverse_reverse] at hback
  exact hback.isInfix.trans (List.dropWhile_suffix isSpace).isInfix

/-- Markup and what follows, stripped. -/
theorem stripChars_markup_append (l x : List Char) :
    ∃ y, stripChars ('<' :: (l ++ ['>']) ++ x) = '<' :: (l ++ ['>']) ++ y := by
  unfold stripChars
  rw [List.cons_append, List.dropWhile_cons_of_neg (by decide), ← List.cons_append,
    List.reverse_append, List.dropWhile_append]
  split
  · exact ⟨[], by simp [isSpace]⟩
  · exact ⟨(x.reverse.dropWhile isSpace).reverse, by simp⟩

/-- Behind the first `>` nothing closes, where nothing closes in what follows it. -/
theorem noneCloses_split {close l m : List Char} (hl : '>' ∉ l) (hm : ¬ close <:+: m) :
    NoneCloses close (l ++ '>' :: m) := by
  intro l' m' heq hclose
  rcases List.append_eq_append_iff.mp heq with ⟨a, ha, hb⟩ | ⟨a, ha, hb⟩
  · cases a with
    | nil =>
        cases hb
        exact hm hclose
    | cons c a =>
        cases hb
        exact hm (hclose.trans ((List.suffix_cons _ _).trans (List.suffix_append _ _)).isInfix)
  · cases a with
    | nil =>
        cases hb
        exact hm hclose
    | cons c a =>
        cases hb
        exact hl (ha ▸ by simp)

/-- A closer in a text that is skipped up to a rest without `>`. -/
theorem not_infix_open {t l m : List Char} (ht : t ∈ xmlClosers) (hl : Skips t l) (hm : '>' ∉ m) :
    ¬ t <:+: l ++ m := by
  rintro ⟨a, b, hab⟩
  obtain ⟨hlast, -, -, hend, -⟩ := closer_last t ht
  have hat : t <+: (l ++ m).drop a.length := by
    rw [← hab, List.append_assoc, List.drop_left]
    exact List.prefix_append _ _
  rcases Nat.lt_or_ge a.length l.length with hlt | hge
  · exact hl m _ hlt hat
  · have hget := getElem_marker hat hend
    rw [List.getElem?_append_right (by omega)] at hget
    exact hm (List.mem_of_getElem? hget)

section Spoiled

variable (lib : JsonLib) (types : Dict String (Dict String String))

/-- A block whose functions have no close holds no call. -/
theorem qwenBlock_unclosed {block : List Char} (h : NoneCloses functionClose block) :
    qwenBlock lib types block = .ok (some []) := by
  unfold qwenBlock
  simp only [splitSections_unclosed isMarker_function (by decide) h]
  rfl

/-- So the innermost opener inside does not help. -/
theorem empty_unclosed {text : List Char} {b : Block}
    (h : NoneCloses functionClose (region text b.bodyStart b.stop)) :
    b.Empty (qwenBlock lib types) text := by
  have hbody : qwenBlock lib types (b.body text) = .ok (some []) :=
    qwenBlock_unclosed lib types (h.of_isInfix (infix_stripped _))
  unfold Block.Empty parseRetrying
  rw [hbody]
  cases hi : b.inner text with
  | none => exact ⟨b, .inr rfl⟩
  | some i =>
      obtain ⟨hstop, hstart, -⟩ := inner_stop hi
      have hinner : i.start ≤ i.bodyStart := by
        unfold Block.inner at hi
        obtain ⟨j, -, rfl⟩ := Option.map_eq_some_iff.mp hi
        exact Nat.le_add_right _ _
      have hregion : region text i.bodyStart i.stop <:+: region text b.bodyStart b.stop := by
        rw [hstop, show i.bodyStart = b.bodyStart + (i.bodyStart - b.bodyStart) by omega,
          ← region_drop]
        exact (List.drop_suffix _ _).isInfix
      have hagain : qwenBlock lib types (i.body text) = .ok (some []) :=
        qwenBlock_unclosed lib types ((h.of_isInfix hregion).of_isInfix (infix_stripped _))
      exact ⟨i, .inr (by simp only [ok_bind, hagain]; rfl)⟩

/-- A parameter that is cut in its name damages its function. -/
theorem qwenBlock_cut {name z rest : List Char} {params : List (List Char × List Char)}
    (hname : Label name) (hwritten : ParamsWritten params)
    (hkeys : ∀ p ∈ params, ¬ Spells functionClose p.1) (hz : '>' ∉ z) :
    qwenBlock lib types (sectionText functionMarker functionClose name
      ('\n' :: (paramsText params ++ (parameterMarker ++ z))) ++ rest) = .ok none := by
  have hcut : '>' ∉ parameterMarker ++ z := fun hm =>
    (List.mem_append.mp hm).elim (by decide) hz
  have hbody : SkipsTo functionClose ('\n' :: (paramsText params ++ (parameterMarker ++ z))) :=
    SkipsTo.append (skips_break (by decide)) (SkipsTo.append
      (paramsText_skips (by decide) (by decide) hwritten hkeys) (skipsTo_open (by decide) hcut))
  obtain ⟨others, ok, hfunctions⟩ := splitSections_first isMarker_function
    (show functionClose ≠ [] by decide) hname.spelledName hbody rest
  have hparams : splitSections ('\n' :: (paramsText params ++ (parameterMarker ++ z)))
      parameterMarker parameterClose =
        (params.map fun p => (p.1, valueLines p.2), params.isEmpty) := by
    have htail : '>' ∉ '\n' :: (parameterMarker ++ z) := fun hm =>
      (List.mem_cons.mp hm).elim (by decide) hcut
    have := splitSections_placed isMarker_parameter
      (show parameterClose ≠ [] by decide) (paramPieces_sound hwritten) htail
    rw [← paramsText_pieces, paramPieces_content hwritten] at this
    rw [this]
    refine Prod.ext rfl ?_
    have hspelled : ('\n' :: (parameterMarker ++ z)).all isSpace = false := by
      simp only [List.all_cons, List.all_append]
      rw [show parameterMarker.all isSpace = false by decide]
      simp
    simp only [hspelled, Bool.or_false, List.isEmpty_map]
  unfold qwenBlock
  simp only [hfunctions]
  cases ok with
  | false => rfl
  | true =>
      simp only [Bool.not_true, Bool.false_eq_true, if_false]
      unfold qwenCalls
      simp only [hparams]
      cases params with
      | nil =>
          rw [if_pos]
          simp only [List.isEmpty_nil, List.map_nil, Bool.not_true, Bool.true_and, Bool.false_or]
          simp only [List.all_cons, paramsText, List.flatMap_nil, List.nil_append, List.all_append]
          rw [show parameterMarker.all isSpace = false by decide]
          simp
      | cons p params => rfl

/-- A call up to a parameter. -/
def callFront (name : List Char) (params : List (List Char × List Char)) : List Char :=
  '\n' :: (functionTag name ++ '\n' :: paramsText params)

/-- A call behind the tag of a parameter. -/
def callRest (value : List Char) (others : List (List Char × List Char)) : List Char :=
  valueLines value ++ parameterClose ++ ['\n'] ++ paramsText others ++ functionClose ++ ['\n']

theorem callLines_split (name : List Char) (params others : List (List Char × List Char))
    (p : List Char × List Char) : callLines name (paramsText (params ++ p :: others)) =
      callFront name params ++ parameterTag p.1 ++ callRest p.2 others := by
  simp [callLines, callFront, callRest, paramsText, parameterLines]

theorem callFront_skips {name : List Char} {params : List (List Char × List Char)}
    (hname : Label name) (hspells : ¬ Spells toolClose name) (hwritten : ParamsWritten params)
    (hkeys : ∀ p ∈ params, ¬ Spells toolClose p.1) :
    Skips toolClose (callFront name params) := by
  have hbreak : Skips toolClose ['\n'] := skips_break (by decide)
  have htag : Skips toolClose (functionHead ++ name ++ ['>']) :=
    skips_label (by decide) (by decide) hname.noClose hspells
  have hparams : Skips toolClose (paramsText params) :=
    paramsText_skips (by decide) (by decide) hwritten hkeys
  have heq : callFront name params =
      ['\n'] ++ (functionHead ++ name ++ ['>']) ++ (['\n'] ++ paramsText params) := by
    simp [callFront, functionTag]
  rw [heq]
  exact (hbreak.append htag).append (hbreak.append hparams)

section Block

variable {lib types} {text pre gap rest name value : List Char}
  {params others : List (List Char × List Char)} {key : List Char}

/-- A block that ends at a closer spelled in a label. -/
theorem block_short {part : List Char} (hgap : SkipsTo toolOpen gap) (hpart : SkipsTo toolClose part)
    (hnone : NoneCloses functionClose part) (htext : text = pre ++ chunkText gap part ++ rest) :
    ∃ b, nextBlock text pre.length = some b ∧ b.Empty (qwenBlock lib types) text := by
  obtain ⟨b, hb, -, -, hregion⟩ := nextBlock_chunk hgap hpart htext
  exact ⟨b, hb, empty_unclosed lib types (hregion.symm ▸ hnone)⟩

/-- A name that ends the block. -/
theorem spoiled_name (hgap : SkipsTo toolOpen gap) (hname : Label name)
    (hspells : Spells toolClose name)
    (htext : text = pre ++ chunkText gap (callLines name (paramsText params)) ++ rest) :
    ∃ b, nextBlock text pre.length = some b ∧ b.Empty (qwenBlock lib types) text := by
  obtain ⟨z, hz, hopen⟩ := hspells.cut (by decide) hname.noClose
  have hout : '>' ∉ '\n' :: (functionHead ++ z) := fun hm =>
    (List.mem_cons.mp hm).elim (by decide) fun hm => (List.mem_append.mp hm).elim (by decide) hopen
  have htag : functionTag name = functionHead ++ z ++ toolClose := by
    rw [functionTag, List.append_assoc, hz, List.append_assoc]
  have hsplit : text = pre ++ chunkText gap ('\n' :: (functionHead ++ z)) ++
      (('\n' :: paramsText params ++ functionClose ++ ['\n']) ++ toolClose ++ rest) := by
    rw [htext]
    simp only [chunkText, callLines, htag]
    simp
  exact block_short hgap (skipsTo_open (by decide) hout) (noneCloses_of_notMem hout) hsplit

/-- A key that ends the block, behind keys that end nothing. -/
theorem spoiled_key (hgap : SkipsTo toolOpen gap) (hname : Label name)
    (hspells : ¬ Spells toolClose name) (hwritten : ParamsWritten params) (hkeys : KeysOpen params)
    (hkey : Label key) (hspoils : Spells toolClose key)
    (htext : text = pre ++ chunkText gap (callFront name params ++ parameterTag key ++
      callRest value others) ++ rest) :
    ∃ b, nextBlock text pre.length = some b ∧ b.Empty (qwenBlock lib types) text := by
  obtain ⟨z, hz, hopen⟩ := hspoils.cut (by decide) hkey.noClose
  have htag : parameterTag key = parameterHead ++ z ++ toolClose := by
    rw [parameterTag, List.append_assoc, hz, List.append_assoc]
  have hcut : '>' ∉ parameterHead ++ z := fun hm => (List.mem_append.mp hm).elim (by decide) hopen
  have hpart : SkipsTo toolClose (callFront name params ++ (parameterHead ++ z)) :=
    SkipsTo.append (callFront_skips hname hspells hwritten fun p hp => (hkeys p hp).1)
      (skipsTo_open (by decide) hcut)
  have hnames : '>' ∉ '\n' :: (functionHead ++ name) := fun hm =>
    (List.mem_cons.mp hm).elim (by decide) fun hm =>
      (List.mem_append.mp hm).elim (by decide) hname.noClose
  have hbehind : ¬ functionClose <:+: (['\n'] ++ paramsText params) ++ (parameterHead ++ z) :=
    not_infix_open (by decide) ((skips_break (by decide)).append (paramsText_skips (by decide)
      (by decide) hwritten fun p hp => (hkeys p hp).2)) hcut
  have hnone : NoneCloses functionClose (callFront name params ++ (parameterHead ++ z)) := by
    have heq : callFront name params ++ (parameterHead ++ z) = '\n' :: (functionHead ++ name) ++
        '>' :: ((['\n'] ++ paramsText params) ++ (parameterHead ++ z)) := by
      simp [callFront, functionTag]
    rw [heq]
    exact noneCloses_split hnames hbehind
  have hsplit : text = pre ++ chunkText gap (callFront name params ++ (parameterHead ++ z)) ++
      (callRest value others ++ toolClose ++ rest) := by
    rw [htext, htag]
    simp only [chunkText, List.append_assoc]
  exact block_short hgap hpart hnone hsplit

/-- A key that ends the function, wherever the block does. -/
theorem spoiled_function (hgap : SkipsTo toolOpen gap) (hname : Label name)
    (hspells : ¬ Spells toolClose name) (hwritten : ParamsWritten params) (hkeys : KeysOpen params)
    (hkey : Label key) (hspoils : Spells functionClose key)
    (htext : text = pre ++ chunkText gap (callFront name params ++ parameterTag key ++
      callRest value others) ++ rest) :
    ∃ b, nextBlock text pre.length = some b ∧ b.Empty (qwenBlock lib types) text := by
  obtain ⟨z, hz, hopen⟩ := hspoils.cut (by decide) hkey.noClose
  have htag : parameterTag key = parameterMarker ++ z ++ functionClose := by
    rw [parameterTag, List.append_assoc, hz, List.append_assoc]
    rfl
  -- the key ends the function, so it does not end the block
  have hkeyOpen : ¬ Spells toolClose key := fun htool => by
    rcases List.suffix_or_suffix_of_suffix hspoils htool with hs | hs
    · exact absurd hs (by decide)
    · exact absurd hs (by decide)
  have hkeyTag : Skips toolClose (parameterTag key) :=
    skips_label (by decide) (by decide) hkey.noClose hkeyOpen
  obtain ⟨behind, after, hbehind, hfirst⟩ := first_occurrence (t := toolClose) (by decide)
    (l := callRest value others ++ toolClose ++ rest) (List.infix_append _ _ _)
  have hpart : SkipsTo toolClose (callFront name params ++ parameterTag key ++ behind) :=
    SkipsTo.append ((callFront_skips hname hspells hwritten fun p hp => (hkeys p hp).1).append
      hkeyTag) hfirst
  have hsplit : text = pre ++ chunkText gap (callFront name params ++ parameterTag key ++ behind) ++
      after := by
    rw [htext]
    simp only [chunkText, List.append_assoc] at hbehind ⊢
    rw [hbehind]
  obtain ⟨b, hb, -, -, hregion⟩ := nextBlock_chunk hgap hpart hsplit
  have hsection : callFront name params ++ parameterTag key ++ behind =
      ['\n'] ++ (sectionText functionMarker functionClose name
        ('\n' :: (paramsText params ++ (parameterMarker ++ z))) ++ behind) := by
    rw [htag]
    simp [callFront, sectionText, sectionHead, functionMarker, functionTag]
  obtain ⟨l, hl⟩ : ∃ l, sectionText functionMarker functionClose name
      ('\n' :: (paramsText params ++ (parameterMarker ++ z))) = '<' :: (l ++ ['>']) := by
    refine ⟨functionHead.tail ++ name ++ ['>'] ++ '\n' :: (paramsText params ++
      (parameterMarker ++ z)) ++ functionClose.dropLast, ?_⟩
    simp [sectionText, sectionHead, functionMarker, functionHead, functionClose]
  obtain ⟨y, hy⟩ := stripChars_markup_append l behind
  have hnone : qwenBlock lib types (b.body text) = .ok none := by
    unfold Block.body
    rw [hregion, hsection, stripChars_blank_append (by decide), hl, hy, ← hl]
    exact qwenBlock_cut lib types hname hwritten (fun p hp => (hkeys p hp).2) hopen
  refine ⟨b, hb, b, .inl ?_⟩
  unfold parseRetrying
  rw [hnone]
  rfl

/-- The call has a label that ends its block or its function. -/
def Spoiled (name : List Char) (params : List (List Char × List Char)) : Prop :=
  Spells toolClose name ∨ ∃ p ∈ params, Spells toolClose p.1 ∨ Spells functionClose p.1

/-- **The block of a spoiled call holds no call**: the first label that spells a closer decides. -/
theorem spoiled_block (hgap : SkipsTo toolOpen gap) (hname : Label name)
    (hwritten : ParamsWritten params) (h : Spoiled name params)
    (htext : text = pre ++ chunkText gap (callLines name (paramsText params)) ++ rest) :
    ∃ b, nextBlock text pre.length = some b ∧ b.Empty (qwenBlock lib types) text := by
  by_cases hspells : Spells toolClose name
  · exact spoiled_name hgap hname hspells htext
  · obtain ⟨p, hp⟩ : ∃ p, params.find? (fun p =>
        decide (Spells toolClose p.1 ∨ Spells functionClose p.1)) = some p := by
      obtain ⟨p, hp, hbad⟩ := h.resolve_left hspells
      exact Option.isSome_iff_exists.mp (List.find?_isSome.mpr ⟨p, hp, decide_eq_true hbad⟩)
    obtain ⟨hbad, good, others, rfl, hgood⟩ := List.find?_eq_some_iff_append.mp hp
    have hkeys : KeysOpen good := fun q hq => by
      have := hgood q hq
      rw [Bool.not_eq_true', decide_eq_false_iff_not, not_or] at this
      exact this
    have hwrittenGood : ParamsWritten good := fun q hq => hwritten q (List.mem_append_left _ hq)
    have hkey : Label p.1 := (hwritten p (by simp)).1
    rw [callLines_split] at htext
    rcases of_decide_eq_true hbad with htool | hfunction
    · exact spoiled_key hgap hname hspells hwrittenGood hkeys hkey htool htext
    · exact spoiled_function hgap hname hspells hwrittenGood hkeys hkey hfunction htext

end Block

end Spoiled

/-! ## 2. Values -/

def isContainer : Json → Bool
  | .arr _ => true
  | .obj _ => true
  | _ => false

/-- A boolean or null: what Python and JSON spell differently. -/
def isConstant : Json → Bool
  | .null => true
  | .bool _ => true
  | _ => false

/-- What comes back of a value. -/
def recovered : Json → Json
  | .null => .str "None"
  | .bool true => .str "True"
  | .bool false => .str "False"
  | v => v

/-- `tojson` writes JSON: a container of finite numbers reads back. -/
def TojsonReads (tojson : Json → Except JsonError (List Char)) : Prop :=
  ∀ {v : Json} {text : List Char}, isContainer v = true → Writable v → finiteNumbers v = true →
    tojson v = .ok text → loads text = some v

theorem recovered_eq {v : Json} : recovered v = v ↔ isConstant v = false := by
  cases v with
  | bool b => cases b <;> simp [recovered, isConstant]
  | _ => simp [recovered, isConstant]

section Values

variable {repr : Rat → List Char} {lib : JsonLib} {tojson : Json → Except JsonError (List Char)}

/-- A scalar's text. -/
theorem rendered_scalar (hlib : PythonJson repr lib) {v : Json} {t text : List Char}
    (hscalar : scalarText repr v = some t) (hcontainer : isContainer v = false)
    (h : rendered lib tojson v = .ok text) : text = t := by
  cases v with
  | arr _ => cases hcontainer
  | obj _ => cases hcontainer
  | str s =>
      cases hscalar
      cases h
      rfl
  | null => exact hlib.spells hscalar h
  | bool b => exact hlib.spells hscalar h
  | int n => exact hlib.spells hscalar h
  | float x => exact hlib.spells hscalar h

/-- **What JSON makes of a rendered value** that is no text: Python's spelling of a boolean or null is
    refused, everything else reads back. -/
theorem loads_rendered (hrepr : ReprReads repr) (hlib : PythonJson repr lib)
    (htojson : TojsonReads tojson) {v : Json} {text : List Char} (hw : Writable v)
    (hfin : finiteNumbers v = true) (hstr : ∀ s, v ≠ .str s)
    (h : rendered lib tojson v = .ok text) :
    loads text = if isConstant v then none else some v := by
  cases v with
  | str s => exact absurd rfl (hstr s)
  | null =>
      rw [rendered_scalar hlib rfl rfl h]
      rfl
  | bool b =>
      cases b with
      | true =>
          rw [rendered_scalar hlib rfl rfl h]
          rfl
      | false =>
          rw [rendered_scalar hlib rfl rfl h]
          rfl
  | int n =>
      have hread := loads_dumps hrepr hw
      rw [if_pos hfin, dumps, dumpsWith] at hread
      rw [rendered_scalar hlib rfl rfl h]
      exact hread
  | float x =>
      cases x with
      | finite q =>
          have hread := loads_dumps hrepr hw
          rw [if_pos hfin, dumps, dumpsWith] at hread
          rw [rendered_scalar hlib rfl rfl h]
          exact hread
      | inf negative => cases hfin
      | nan => cases hfin
  | arr items => exact htojson rfl hw hfin h
  | obj fields => exact htojson rfl hw hfin h

/-- **What the parser makes of a rendered value**, up to the recursion limit. -/
theorem coerced_rendered (hrepr : ReprReads repr) (hlib : PythonJson repr lib)
    (htojson : TojsonReads tojson) {v : Json} {text : List Char} {declared : Option String}
    (hw : Writable v) (hfin : finiteNumbers v = true)
    (htyped : (∃ s, v = .str s) ↔ declaresText declared = true)
    (h : rendered lib tojson v = .ok text) (hreads : ValueReads lib declared text) :
    coerced lib text declared = recovered v := by
  unfold coerced
  by_cases hdeclared : declaresText declared = true
  · obtain ⟨s, rfl⟩ := htyped.mpr hdeclared
    cases h
    rw [if_pos hdeclared, String.ofList_toList]
    rfl
  · have hstr : ∀ s, v ≠ .str s := fun s hs => hdeclared (htyped.mp ⟨s, hs⟩)
    have hlimit : lib.loads text ≠ .error .recursionError := fun he =>
      absurd (hreads (Bool.not_eq_true _ ▸ hdeclared) _ he) nofun
    rw [if_neg hdeclared, hlib.reads hlimit, loads_rendered hrepr hlib htojson hw hfin hstr h]
    cases hconstant : isConstant v with
    | false =>
        simp only [Bool.false_eq_true, if_false, decodedOr]
        exact (recovered_eq.mpr hconstant).symm
    | true =>
        simp only [if_true, decodedOr]
        cases v with
        | null =>
            rw [rendered_scalar hlib rfl rfl h]
            rfl
        | bool b =>
            cases b with
            | true =>
                rw [rendered_scalar hlib rfl rfl h]
                rfl
            | false =>
                rw [rendered_scalar hlib rfl rfl h]
                rfl
        | _ => cases hconstant

end Values

/-! ## 3. The round trip -/

section RoundTrip

variable (lib : JsonLib) (tojson : Json → Except JsonError (List Char))
  (types : Dict String (Dict String String))

/-- What the template can be given: names and keys are labels, the arguments a dictionary of JSON
    values, texts exactly where the schema says so, and no value that ends a marker. -/
structure TemplateCall.Renderable (c : TemplateCall) : Prop where
  name : Label c.name
  keys : ∀ e ∈ c.arguments, Label e.1.toList
  distinct : (c.arguments.map Prod.fst).Nodup
  values : ∀ e ∈ c.arguments, Writable e.2 ∧ finiteNumbers e.2 = true
  typed : ∀ e ∈ c.arguments,
    (∃ s, e.2 = .str s) ↔ declaresText (declaredType types c.name e.1.toList) = true
  unclosed : ∀ e ∈ c.arguments, ∀ text, rendered lib tojson e.2 = .ok text → Unclosed text

/-- The calls come back: the same names, the same arguments once decoded, and no content. -/
def RoundTrips (calls : List TemplateCall) (text : List Char) : Prop :=
  ∃ parsed, parse (qwenBlock lib types) text = .ok ([], parsed) ∧
    List.Forall₂ (fun c p => p.name = c.name ∧ lib.loads p.arguments = .ok (.obj c.arguments))
      calls parsed

/-- No label of a call ends its block or its function with the `>` of its tag. -/
def TemplateCall.LabelsOpen (c : TemplateCall) : Prop :=
  ¬ Spells toolClose c.name ∧
    ∀ e ∈ c.arguments, ¬ Spells toolClose e.1.toList ∧ ¬ Spells functionClose e.1.toList

/-- A call that comes back: its labels end nothing, no argument is itself a boolean or null, and the
    JSON library does not stop at its recursion limit. -/
structure TemplateCall.Kept (c : TemplateCall) : Prop where
  labels : c.LabelsOpen
  values : ∀ e ∈ c.arguments, isConstant e.2 = false
  reads : ∀ e ∈ c.arguments, ∀ text, rendered lib tojson e.2 = .ok text →
    ValueReads lib (declaredType types c.name e.1.toList) text
  encodes : ∃ text, lib.dumps (.obj c.arguments) = .ok text ∧
    lib.loads text ≠ .error .recursionError

variable {lib tojson types} {a : RenderedCall}

/-- The texts of the parameters of a call. -/
theorem faithful_written (hfaithful : a.Faithful lib tojson)
    (hcall : a.call.Renderable lib tojson types) : ParamsWritten a.params := by
  intro p hp
  obtain ⟨e, he, hkey, htext⟩ := forall₂_right hfaithful.params p hp
  exact ⟨hkey ▸ hcall.keys e he, hcall.unclosed e he _ htext⟩

/-- The keys of the parameters are those of the arguments. -/
theorem renderedFields_keys {fields : Fields} {params : List (List Char × List Char)}
    (h : RenderedFields lib tojson fields params) :
    (params.map fun p => String.ofList p.1) = fields.map Prod.fst := by
  induction h with
  | nil => rfl
  | cons hp _ ih => rw [List.map_cons, List.map_cons, ih, hp.1, String.ofList_toList]

theorem faithful_spoiled (hfaithful : a.Faithful lib tojson) :
    Spoiled a.call.name a.params ↔ ¬ a.call.LabelsOpen := by
  have hparams : ∀ t, (∃ p ∈ a.params, Spells t p.1) ↔
      ∃ e ∈ a.call.arguments, Spells t e.1.toList := by
    intro t
    constructor
    · rintro ⟨p, hp, h⟩
      obtain ⟨e, he, hkey, -⟩ := forall₂_right hfaithful.params p hp
      exact ⟨e, he, hkey ▸ h⟩
    · rintro ⟨e, he, h⟩
      obtain ⟨p, hp, hkey, -⟩ := forall₂_left hfaithful.params e he
      exact ⟨p, hp, hkey ▸ h⟩
  have htool := hparams toolClose
  have hfunction := hparams functionClose
  unfold Spoiled TemplateCall.LabelsOpen
  grind

theorem blank_gap {gap : List Char} (h : gap.all isSpace = true) : SkipsTo toolOpen gap :=
  .of_skips (skips_of_notMem fun hm => absurd (List.all_eq_true.mp h _ hm) (by decide))

/-- A call whose labels end nothing is one block that holds one call. -/
theorem faithful_holds (hfaithful : a.Faithful lib tojson)
    (hcall : a.call.Renderable lib tojson types) (hopen : a.call.LabelsOpen) :
    HoldsOne (qwenBlock lib types) a.gap a.body (parsedCall lib types a.call.name a.params) := by
  have hwritten := faithful_written hfaithful hcall
  have hnot : ¬ Spoiled a.call.name a.params := fun h => (faithful_spoiled hfaithful).mp h hopen
  have hkeys : KeysOpen a.params := fun p hp =>
    ⟨fun h => hnot (.inr ⟨p, hp, .inl h⟩), fun h => hnot (.inr ⟨p, hp, .inr h⟩)⟩
  exact ⟨blank_gap hfaithful.gap,
    .of_skips (callLines_skips hcall.name hopen.1 hwritten hkeys),
    qwenBlock_callLines lib types hcall.name hwritten hkeys⟩

/-- **A call with a label that ends its block stays in the content.** -/
theorem spoiled_content {items : List RenderedCall} {text : List Char}
    (htext : text = items.flatMap fun a => chunkText a.gap a.body)
    (hfaithful : ∀ a ∈ items, a.Faithful lib tojson)
    (hcalls : ∀ a ∈ items, a.call.Renderable lib tojson types)
    (hbad : ∃ a ∈ items, ¬ a.call.LabelsOpen) {r : List Char × List ParsedCall}
    (h : parse (qwenBlock lib types) text = .ok r) : r.1 ≠ [] := by
  classical
  obtain ⟨a, ha⟩ : ∃ a, items.find? (fun a => decide ¬ a.call.LabelsOpen) = some a := by
    obtain ⟨a, ha, hnot⟩ := hbad
    exact Option.isSome_iff_exists.mp (List.find?_isSome.mpr ⟨a, ha, decide_eq_true hnot⟩)
  obtain ⟨hnot, good, others, rfl, hgood⟩ := List.find?_eq_some_iff_append.mp ha
  have hlead : ∀ b ∈ good, SkipsTo toolOpen b.gap ∧ SkipsTo toolClose b.body := fun b hb => by
    have hmem : b ∈ good ++ a :: others := List.mem_append_left _ hb
    have hopen : b.call.LabelsOpen := by simpa using hgood b hb
    have := faithful_holds (hfaithful b hmem) (hcalls b hmem) hopen
    exact ⟨this.opener, this.closer⟩
  have hmem : a ∈ good ++ a :: others := by simp
  have hsplit : text = [] ++ (good.flatMap fun a => chunkText a.gap a.body) ++
      (chunkText a.gap a.body ++ others.flatMap fun a => chunkText a.gap a.body) := by
    rw [htext]
    simp
  have hthere : text = (good.flatMap fun a => chunkText a.gap a.body) ++
      chunkText a.gap (callLines a.call.name (paramsText a.params)) ++
        (others.flatMap fun a => chunkText a.gap a.body) := by
    rw [hsplit, List.nil_append, List.append_assoc]
    rfl
  -- the blocks in front lead to the one that is spoiled
  obtain ⟨b, hb, hempty⟩ : ∃ b, nextBlock text
      (good.flatMap fun a => chunkText a.gap a.body).length = some b ∧
        b.Empty (qwenBlock lib types) text :=
    spoiled_block (blank_gap (hfaithful a hmem).gap) (hcalls a hmem).name
      (faithful_written (hfaithful a hmem) (hcalls a hmem))
      ((faithful_spoiled (hfaithful a hmem)).mpr (of_decide_eq_true hnot)) hthere
  have hlen : good.length + 1 ≤ text.length := by
    have := chunks_length RenderedCall.gap RenderedCall.body (good ++ a :: others)
    rw [← htext, List.length_append, List.length_cons] at this
    omega
  have hblock : b ∈ blocks text := by
    have := blocksFrom_chunks _ (b := b) good [] (text.length - good.length) hlead hsplit (by
      obtain ⟨n, hn⟩ : ∃ n, text.length - good.length = n + 1 := ⟨text.length - good.length - 1,
        by omega⟩
      rw [hn]
      unfold blocksFrom
      rw [List.nil_append, hb]
      exact List.mem_cons_self)
    rw [Nat.add_sub_cancel' (by omega)] at this
    exact this
  intro hnil
  have hvisible := parse_visible h hblock hempty
  rw [hnil, List.infix_nil] at hvisible
  obtain ⟨hbody, hle, hopen, hclose⟩ := blocksFrom_stand hblock
  rw [markup_eq (by omega) hopen hclose] at hvisible
  cases hvisible

/-- The arguments that come back of the parameters. -/
theorem qwenArguments_rendered {repr : Rat → List Char} (hrepr : ReprReads repr)
    (hlib : PythonJson repr lib) (htojson : TojsonReads tojson) (hfaithful : a.Faithful lib tojson)
    (hcall : a.call.Renderable lib tojson types) {arguments : Fields}
    (h : qwenArguments lib (declaredType types a.call.name) []
      (a.params.map fun p => (p.1, valueLines p.2)) = .ok arguments) :
    arguments = a.call.arguments.map fun e => (e.1, recovered e.2) := by
  have hkeys := renderedFields_keys hfaithful.params
  obtain ⟨entries, rfl, hentries⟩ := qwenArguments_new h (by
    rw [List.map_nil, List.nil_append, List.map_map]
    exact hkeys ▸ hcall.distinct)
  rw [← List.forall₂_eq_eq_eq, List.forall₂_map_right_iff]
  rw [List.forall₂_map_right_iff] at hentries
  -- both lists follow the parameters
  have hparams : List.Forall₂ (fun (p : List Char × List Char) (e : String × Json) =>
      e ∈ a.call.arguments ∧ p.1 = e.1.toList ∧ rendered lib tojson e.2 = .ok p.2) a.params
        a.call.arguments :=
    List.Forall₂.flip ((List.forall₂_and_left _ _).mpr ⟨fun _ he => he, hfaithful.params⟩)
  refine forall₂_comp (fun entry p e hentry hp => ?_) hentries hparams
  obtain ⟨he, hkey, htext⟩ := hp
  obtain ⟨key, w⟩ := entry
  obtain ⟨hfst, hw⟩ := hentry
  have hreads := (coerce_returns lib _ _).mp ⟨w, hw⟩
  rw [coerce_eq lib hreads] at hw
  simp only [trimNewlines_valueLines] at hw hreads
  have hrecovered := coerced_rendered hrepr hlib htojson (hcall.values e he).1
    (hcall.values e he).2 (hcall.typed e he) htext (hkey ▸ hreads)
  rw [← hkey, Except.ok.inj hw] at hrecovered
  rw [hrecovered]
  simp only at hfst
  rw [hfst, hkey, String.ofList_toList]

/-- The values of a call can be read. -/
theorem params_read (hfaithful : a.Faithful lib tojson) :
    (∀ e ∈ a.call.arguments, ∀ text, rendered lib tojson e.2 = .ok text →
      ValueReads lib (declaredType types a.call.name e.1.toList) text) ↔
    ∀ p ∈ trimmed (a.params.map fun p => (p.1, valueLines p.2)),
      ValueReads lib (declaredType types a.call.name p.1) p.2 := by
  have htrimmed : trimmed (a.params.map fun p => (p.1, valueLines p.2)) = a.params := by
    unfold trimmed
    rw [List.map_map]
    conv_rhs => rw [← List.map_id a.params]
    refine List.map_congr_left fun p _ => ?_
    exact Prod.ext rfl (trimNewlines_valueLines p.2)
  rw [htrimmed]
  constructor
  · intro h p hp
    obtain ⟨e, he, hkey, htext⟩ := forall₂_right hfaithful.params p hp
    rw [hkey]
    exact h e he _ htext
  · intro h e he text htext
    obtain ⟨p, hp, hkey, htext'⟩ := forall₂_left hfaithful.params e he
    rw [htext] at htext'
    cases htext'
    rw [← hkey]
    exact h p hp

/-- **One call comes back** exactly where no argument is a boolean or null, and JSON does not stop at
    its limit. -/
theorem parsedCall_iff {repr : Rat → List Char} (hrepr : ReprReads repr)
    (hlib : PythonJson repr lib) (htojson : TojsonReads tojson) (hfaithful : a.Faithful lib tojson)
    (hcall : a.call.Renderable lib tojson types) (hopen : a.call.LabelsOpen) :
    (∃ p, parsedCall lib types a.call.name a.params = .ok p ∧ p.name = a.call.name ∧
        lib.loads p.arguments = .ok (.obj a.call.arguments)) ↔
      a.call.Kept lib tojson types := by
  have hwritable : ∀ {fields : Fields}, fields.map Prod.fst = a.call.arguments.map Prod.fst →
      (∀ e ∈ fields, Writable e.2 ∧ finiteNumbers e.2 = true) →
        Writable (.obj fields) ∧ finiteNumbers (.obj fields) = true := fun hkeys hvalues =>
    ⟨⟨hkeys ▸ hcall.distinct, writableFields_iff.mpr fun e he => (hvalues e he).1⟩,
      finiteFields_iff.mpr fun e he => (hvalues e he).2⟩
  have hwhole := hwritable rfl hcall.values
  constructor
  · rintro ⟨p, hp, -, hread⟩
    unfold parsedCall at hp
    obtain ⟨arguments, harguments, hp⟩ := bind_ok hp
    obtain ⟨text, htext, hp⟩ := bind_ok hp
    cases hp
    have hreads := (params_read hfaithful).mpr (qwenArguments_returns lib ⟨arguments, harguments⟩)
    have heq := qwenArguments_rendered hrepr hlib htojson hfaithful hcall harguments
    have hfields : Writable (.obj arguments) ∧ finiteNumbers (.obj arguments) = true := by
      refine hwritable (by rw [heq, List.map_map]; rfl) ?_
      rw [heq]
      intro e he
      obtain ⟨e, hmem, rfl⟩ := List.mem_map.mp he
      obtain ⟨k, v⟩ := e
      cases v with
      | null => exact ⟨trivial, rfl⟩
      | bool b => cases b <;> exact ⟨trivial, rfl⟩
      | _ => exact hcall.values _ hmem
    have hsame := hlib.read_written hrepr hfields.1 hfields.2 htext (by rw [hread]; exact nofun)
    rw [hread] at hsame
    cases hsame
    refine ⟨hopen, fun e he => ?_, hreads, text, htext, by rw [hread]; exact nofun⟩
    -- what comes back is the recovered value of each argument
    have hid : (a.call.arguments.map fun e => (e.1, recovered e.2)) =
        a.call.arguments.map id := by rw [← heq, List.map_id]
    have := List.map_inj_left.mp hid e he
    exact recovered_eq.mp (congrArg Prod.snd this)
  · rintro ⟨-, hvalues, hreads, text, htext, hlimit⟩
    have hok : qwenArguments lib (declaredType types a.call.name) []
        (a.params.map fun p => (p.1, valueLines p.2)) = .ok _ :=
      qwenArguments_eq lib ((params_read hfaithful).mp hreads)
    have heq := qwenArguments_rendered hrepr hlib htojson hfaithful hcall hok
    have hid : (a.call.arguments.map fun e => (e.1, recovered e.2)) = a.call.arguments := by
      conv_rhs => rw [← List.map_id a.call.arguments]
      exact List.map_congr_left fun e he =>
        Prod.ext rfl (recovered_eq.mpr (hvalues e he))
    rw [heq, hid] at hok
    refine ⟨⟨a.call.name, text⟩, ?_, rfl, hlib.read_written hrepr hwhole.1 hwhole.2 htext hlimit⟩
    unfold parsedCall
    rw [hok, ok_bind, htext]
    rfl

end RoundTrip

/-- **The Qwen parser undoes the Qwen template, exactly**: the calls of a message come back where no
    label ends its block or function, no argument is itself a boolean or null, and the JSON library
    does not stop at its recursion limit. -/
theorem template_round_trip_iff {repr : Rat → List Char} (hrepr : ReprReads repr) {lib : JsonLib}
    (hlib : PythonJson repr lib) {tojson : Json → Except JsonError (List Char)}
    (htojson : TojsonReads tojson) (tools : Json) {calls : List TemplateCall} {text : List Char}
    (hcalls : ∀ c ∈ calls, c.Renderable lib tojson (parameterTypes tools))
    (hrender : renderToolCalls lib tojson [] calls = .ok text) :
    RoundTrips lib (parameterTypes tools) calls text ↔
      ∀ c ∈ calls, c.Kept lib tojson (parameterTypes tools) := by
  obtain ⟨items, rfl, hfaithful, htext⟩ := renderToolCalls_ok hrender
  have hitems : ∀ a ∈ items, a.call.Renderable lib tojson (parameterTypes tools) := fun a ha =>
    hcalls _ (List.mem_map_of_mem ha)
  have hgaps : stripChars (items.flatMap RenderedCall.gap) = [] := by
    have hblank : (items.flatMap RenderedCall.gap).all isSpace = true := by
      rw [List.all_flatMap]
      exact List.all_eq_true.mpr fun a ha => (hfaithful a ha).gap
    rw [← List.append_nil (items.flatMap RenderedCall.gap), stripChars_blank_append hblank]
    rfl
  -- where the labels end nothing, the calls are parsed one by one
  have hparse : (∀ a ∈ items, a.call.LabelsOpen) →
      parse (qwenBlock lib (parameterTypes tools)) text =
        (items.mapM fun a => parsedCall lib (parameterTypes tools) a.call.name a.params).map
          fun calls => ([], calls) := fun hopen => by
    have := parse_chunks (show ¬ toolOpen <:+: [] by decide) fun a ha =>
      faithful_holds (hfaithful a ha) (hitems a ha) (hopen a ha)
    rw [List.append_nil, List.append_nil, hgaps] at this
    rw [htext]
    exact this
  rw [List.forall_mem_map]
  constructor
  · rintro ⟨parsed, hparsed, hsame⟩
    have hopen : ∀ a ∈ items, a.call.LabelsOpen := fun a ha => by
      by_contra hbad
      exact spoiled_content htext hfaithful hitems ⟨a, ha, hbad⟩ hparsed rfl
    rw [hparse hopen] at hparsed
    obtain ⟨parsed', hmap, heq⟩ := map_ok hparsed
    cases heq
    rw [mapM_ok_iff] at hmap
    rw [List.forall₂_map_left_iff] at hsame
    intro a ha
    refine (parsedCall_iff hrepr hlib htojson (hfaithful a ha) (hitems a ha) (hopen a ha)).mp ?_
    have hall : List.Forall₂ (fun (a : RenderedCall) p =>
        parsedCall lib (parameterTypes tools) a.call.name a.params = .ok p ∧
          p.name = a.call.name ∧ lib.loads p.arguments = .ok (.obj a.call.arguments)) items parsed :=
      List.Forall₂.mp (fun _ _ h₁ h₂ => ⟨h₁, h₂⟩) hmap hsame
    obtain ⟨p, -, hp⟩ := forall₂_left hall a ha
    exact ⟨p, hp⟩
  · intro hkept
    have hopen : ∀ a ∈ items, a.call.LabelsOpen := fun a ha => (hkept a ha).labels
    have hone : ∀ a ∈ items, ∃ p, parsedCall lib (parameterTypes tools) a.call.name a.params = .ok p ∧
        p.name = a.call.name ∧ lib.loads p.arguments = .ok (.obj a.call.arguments) := fun a ha =>
      (parsedCall_iff hrepr hlib htojson (hfaithful a ha) (hitems a ha) (hopen a ha)).mpr (hkept a ha)
    obtain ⟨parsed, hparsed⟩ := forall₂_exists hone
    refine ⟨parsed, ?_, ?_⟩
    · rw [hparse hopen, mapM_ok_iff.mpr (hparsed.imp fun _ _ h => h.1)]
      rfl
    · rw [List.forall₂_map_left_iff]
      exact hparsed.imp fun _ _ h => h.2

/-! ## 4. Two messages -/

/-- `tojson` as `json.dumps`. -/
def dumpsJson (v : Json) : Except JsonError (List Char) := .ok (dumps exactRepr v)

theorem dumpsJson_reads : TojsonReads dumpsJson := by
  intro v text _ hw hfin h
  cases h
  rw [loads_dumps exactRepr_reads hw, if_pos hfin]

/-- A call with a text and a list. -/
def textAndList : TemplateCall := ⟨['f'], [("k", .str "x"), ("n", .arr [.int 1])]⟩

def textAndListParams : List (List Char × List Char) := [(['k'], ['x']), (['n'], ['[', '1', ']'])]

theorem textAndList_renderable :
    textAndList.Renderable (pythonJson exactRepr) dumpsJson (parameterTypes textTool) where
  name := ⟨by decide, by decide, by decide, by decide⟩
  keys := by
    simp only [textAndList, List.forall_mem_cons]
    exact ⟨⟨by decide, by decide, by decide, by decide⟩, ⟨by decide, by decide, by decide, by decide⟩,
      nofun⟩
  distinct := by decide
  values := by
    simp only [textAndList, List.forall_mem_cons]
    exact ⟨⟨trivial, rfl⟩, ⟨⟨show (Nat.toDigits 10 1).length ≤ digitLimit by decide, trivial⟩, rfl⟩,
      nofun⟩
  typed := by
    have hk : declaresText (declaredType (parameterTypes textTool) ['f'] ['k']) = true := by
      decide +kernel
    have hn : ¬ declaresText (declaredType (parameterTypes textTool) ['f'] ['n']) = true := by
      decide +kernel
    simp only [textAndList, List.forall_mem_cons]
    exact ⟨⟨fun _ => hk, fun _ => ⟨_, rfl⟩⟩, ⟨nofun, fun h => absurd h hn⟩, nofun⟩
  unclosed := by
    simp only [textAndList, List.forall_mem_cons]
    refine ⟨?_, ?_, nofun⟩
    · rintro text ⟨⟩
      decide
    · rintro text ⟨⟩
      decide +kernel

theorem textAndList_kept :
    textAndList.Kept (pythonJson exactRepr) dumpsJson (parameterTypes textTool) where
  labels := ⟨by decide, by
    simp only [textAndList, List.forall_mem_cons]
    exact ⟨⟨by decide, by decide⟩, ⟨by decide, by decide⟩, nofun⟩⟩
  values := by
    simp only [textAndList, List.forall_mem_cons]
    exact ⟨rfl, rfl, nofun⟩
  reads := by
    intro e _ text _ _ error herror
    unfold pythonJson decodedOr at herror
    simp only at herror
    split at herror
    · cases herror
    · cases herror
      rfl
  encodes := by
    refine ⟨_, rfl, ?_⟩
    unfold pythonJson decodedOr
    simp only
    split <;> exact nofun

/-- A text and a list come back. -/
theorem template_round_trip_text :
    RoundTrips (pythonJson exactRepr) (parameterTypes textTool) [textAndList]
      (chunkText [] (callLines ['f'] (paramsText textAndListParams))) :=
  (template_round_trip_iff exactRepr_reads (pythonJson_python exactRepr) dumpsJson_reads textTool
    (List.forall_mem_singleton.mpr textAndList_renderable) rfl).mpr
      (List.forall_mem_singleton.mpr textAndList_kept)

/-- A call with a boolean. -/
def flagged : TemplateCall := ⟨['f'], [("k", .bool true)]⟩

/-- **A boolean comes back as a text**: `True` is no JSON. -/
theorem template_loses_boolean :
    ¬ ∀ (repr : Rat → List Char) (lib : JsonLib) (tojson : Json → Except JsonError (List Char))
      (tools : Json) (calls : List TemplateCall) (text : List Char), ReprReads repr →
        PythonJson repr lib → TojsonReads tojson →
        (∀ c ∈ calls, c.Renderable lib tojson (parameterTypes tools)) →
        renderToolCalls lib tojson [] calls = .ok text →
          RoundTrips lib (parameterTypes tools) calls text := by
  intro hall
  have hflagged : flagged.Renderable (pythonJson exactRepr) dumpsJson (parameterTypes .null) := by
    refine ⟨⟨by decide, by decide, by decide, by decide⟩, ?_, by decide, ?_, ?_, ?_⟩
    · exact List.forall_mem_singleton.mpr ⟨by decide, by decide, by decide, by decide⟩
    · exact List.forall_mem_singleton.mpr ⟨trivial, rfl⟩
    · have hk : ¬ declaresText (declaredType (parameterTypes .null) ['f'] ['k']) = true := by
        decide +kernel
      exact List.forall_mem_singleton.mpr ⟨nofun, fun h => absurd h hk⟩
    · refine List.forall_mem_singleton.mpr ?_
      rintro text ⟨⟩
      decide
  obtain ⟨parsed, hparsed, hsame⟩ := hall exactRepr (pythonJson exactRepr) dumpsJson .null [flagged] _
    exactRepr_reads (pythonJson_python exactRepr) dumpsJson_reads
    (List.forall_mem_singleton.mpr hflagged) rfl
  have hcall : parsed = [⟨['f'], encodedText ['k'] ['T', 'r', 'u', 'e']⟩] := by
    have hrun : parse (qwenBlock (pythonJson exactRepr) (parameterTypes .null))
        (chunkText [] (callLines ['f'] (paramsText [(['k'], ['T', 'r', 'u', 'e'])]))) =
          .ok ([], [⟨['f'], encodedText ['k'] ['T', 'r', 'u', 'e']⟩]) := by decide +kernel
    have := hparsed.symm.trans hrun
    cases this
    rfl
  subst hcall
  obtain ⟨⟨-, hread⟩, -⟩ := List.forall₂_cons.mp hsame
  have hvalue : loads (encodedText ['k'] ['T', 'r', 'u', 'e']) =
      some (.obj [("k", .str "True")]) := rfl
  have := (pythonJson_python exactRepr).read hread
  rw [hvalue] at this
  cases this

end RolloutProxy.ToolParser
