/-
  File:      RolloutProxy/ToolParser/StrictArguments.lean
  Subject:   WHEN ENCODED ARGUMENTS ARE STRICT JSON: the parsers refuse the named constants `NaN` and
             `Infinity`, but a number literal beyond the doubles decodes to an infinity that
             `json.dumps` writes as `Infinity`.

  * `sources` is what the arguments of every call come from: a string the model supplied, or an
    object that was decoded and is encoded again (`sources_written`).
  * An encoded object is strict JSON exactly where its numbers are finite, at every depth
    (`arguments_strict_iff`).
-/
import RolloutProxy.ToolParser.Completion
import RolloutProxy.ToolParser.Extraction
import RolloutProxy.ToolParser.PythonJson

namespace RolloutProxy.ToolParser

/-! ## 1. Sources -/

/-- The dialects that encode arguments. -/
inductive EncodingDialect where
  | block (d : BlockDialect)
  | llama3Json
  deriving DecidableEq

/-- The parser of a dialect. -/
def EncodingDialect.tool : EncodingDialect → ToolDialect
  | .block d => .block d
  | .llama3Json => .llama3Json

/-- What the arguments of a call come from: a string of the model's, or an object. -/
inductive ArgumentSource where
  | supplied (text : List Char)
  | decoded (fields : Fields)

/-- A supplied string is passed through, an object is encoded. -/
def ArgumentSource.WrittenAs (lib : JsonLib) : ArgumentSource → ParsedCall → Prop
  | .supplied text, call => call.arguments = text
  | .decoded fields, call => lib.dumps (.obj fields) = .ok call.arguments

/-- The source of the arguments of a JSON call. -/
def sourceOf : Json → ArgumentSource
  | .str s => .supplied s.toList
  | .obj fields => .decoded fields
  | _ => .decoded []

/-- The source in a decoded object that carries a name. -/
def objectSource : Json → ArgumentSource
  | .obj fields => sourceOf (callArguments fields)
  | _ => .decoded []

section Sources

variable (lib : JsonLib) (types : Dict String (Dict String String))

def hermesSources (block : List Char) : List ArgumentSource :=
  match lib.loads block with
  | .ok object => if isCallObject object then [objectSource object] else []
  | .error _ => []

def qwenSources (block : List Char) : List ArgumentSource :=
  (blockFunctions block).1.map fun f =>
    .decoded (coercedArguments lib (declaredType types f.1) [] (functionParameters f.2).1)

def glmSources (block : List Char) : List ArgumentSource :=
  [.decoded (coercedArguments lib (declaredType types (glmName block)) [] (glmBlockPairs block).1)]

/-- The sources of a block that holds calls. -/
def BlockDialect.sources (tools : Json) (d : BlockDialect) (block : List Char) :
    List ArgumentSource :=
  match d with
  | .hermes => hermesSources lib block
  | .qwen3Coder => qwenSources lib (parameterTypes tools) block
  | .glm47 => glmSources lib (parameterTypes tools) block

/-- A turn of Llama's is one object or an array of them, each a call. -/
def llamaSources (text : List Char) : List ArgumentSource :=
  if startsJson text then
    match lib.loads text with
    | .ok decoded =>
      if (decodedObjects decoded).all isCallObject then (decodedObjects decoded).map objectSource
      else []
    | .error _ => []
  else []

/-- The calls of a block, where it is parsed. -/
def held (parseBlock : BlockParser) (block : List Char) : Option (List ParsedCall) :=
  match parseBlock block with
  | .ok calls => calls
  | .error _ => none

/-- What the arguments of a completion come from, call by call. -/
def EncodingDialect.sources (d : EncodingDialect) (reasoning : ReasoningParser) (text : List Char)
    (tools : Json) : List ArgumentSource :=
  match d with
  | .block d => (taken (held (d.parseBlock lib tools)) (reasoning.strip text)).flatMap fun b =>
      d.sources lib tools (b.body (reasoning.strip text))
  | .llama3Json => llamaSources lib (stripChars (reasoning.strip text))

end Sources

/-! ## 2. Every call is written from its source -/

section Written

variable {lib : JsonLib} {types : Dict String (Dict String String)}

theorem encodedCall_written {name : List Char} {arguments : Json} {call : ParsedCall}
    (h : encodedCall lib name arguments = .ok (some call)) :
    (sourceOf arguments).WrittenAs lib call := by
  cases arguments with
  | str s =>
    cases h
    rfl
  | _ =>
    obtain ⟨text, htext, h⟩ := bind_ok h
    cases h
    exact htext

theorem objectSource_written {object : Json} {call : ParsedCall}
    (h : toolCallFromObject lib object = .ok (some call)) :
    isCallObject object = true ∧ (objectSource object).WrittenAs lib call := by
  have hobject : isCallObject object = true := by
    cases hc : isCallObject object with
    | true => rfl
    | false => cases (toolCallFromObject_none lib h).mpr hc
  refine ⟨hobject, ?_⟩
  cases object with
  | obj fields =>
    rw [toolCallFromObject_named lib hobject] at h
    obtain ⟨name, -, h⟩ := bind_ok h
    exact encodedCall_written h
  | _ => cases hobject

theorem hermesSources_written {block : List Char} {calls : List ParsedCall}
    (h : hermesBlock lib block = .ok (some calls)) :
    List.Forall₂ (ArgumentSource.WrittenAs lib) (hermesSources lib block) calls := by
  unfold hermesBlock at h
  unfold hermesSources
  split at h
  · next he =>
    rw [he]
    cases h
    exact .nil
  · cases h
  · next object hobject =>
    rw [hobject]
    obtain ⟨r, hr, h⟩ := bind_ok h
    cases r with
    | none =>
      cases h
      simp only [(toolCallFromObject_none lib hr).mp rfl]
      exact .nil
    | some call =>
      cases h
      obtain ⟨hcall, hwritten⟩ := objectSource_written hr
      simp only [hcall]
      exact .cons hwritten .nil

theorem qwenCalls_written : ∀ {functions : List (List Char × List Char)} {calls : List ParsedCall},
    qwenCalls lib types functions = .ok (some calls) →
      List.Forall₂ (ArgumentSource.WrittenAs lib) (functions.map fun f =>
        .decoded (coercedArguments lib (declaredType types f.1) [] (functionParameters f.2).1)) calls
  | [], calls, h => by
      cases h
      exact .nil
  | (name, body) :: rest, calls, h => by
      unfold qwenCalls at h
      simp only at h
      split at h
      · cases h
      · obtain ⟨arguments, ha, h⟩ := bind_ok h
        obtain ⟨text, htext, h⟩ := bind_ok h
        obtain ⟨later, hlater, h⟩ := bind_ok h
        cases later with
        | none => cases h
        | some later =>
          cases h
          rw [qwenArguments_eq lib (qwenArguments_returns lib ⟨arguments, ha⟩)] at ha
          cases ha
          exact .cons htext (qwenCalls_written hlater)

theorem qwenSources_written {block : List Char} {calls : List ParsedCall}
    (h : qwenBlock lib types block = .ok (some calls)) :
    List.Forall₂ (ArgumentSource.WrittenAs lib) (qwenSources lib types block) calls := by
  unfold qwenBlock at h
  simp only at h
  split at h
  · cases h
  · exact qwenCalls_written h

theorem glmSources_written {block : List Char} {calls : List ParsedCall}
    (h : glmBlock lib types block = .ok (some calls)) :
    List.Forall₂ (ArgumentSource.WrittenAs lib) (glmSources lib types block) calls := by
  cases hn : glmNamed block with
  | false =>
    rw [glmBlock_unnamed lib types hn] at h
    cases h
  | true =>
    rw [glmBlock_named lib types hn] at h
    obtain ⟨arguments, ha, h⟩ := bind_ok h
    obtain ⟨hreturns, heq⟩ := glmBlockArguments_spec lib types block
    rw [heq (hreturns.mp ⟨arguments, ha⟩)] at ha
    cases arguments with
    | none => cases h
    | some arguments =>
      obtain ⟨text, htext, h⟩ := bind_ok h
      cases h
      split at ha
      · cases ha
        exact .cons htext .nil
      · cases ha

theorem BlockDialect.sources_written {tools : Json} (d : BlockDialect) {block : List Char}
    {calls : List ParsedCall} (h : d.parseBlock lib tools block = .ok (some calls)) :
    List.Forall₂ (ArgumentSource.WrittenAs lib) (d.sources lib tools block) calls := by
  cases d with
  | hermes => exact hermesSources_written h
  | qwen3Coder => exact qwenSources_written h
  | glm47 => exact glmSources_written h

/-- A list of objects that are all calls, in order. -/
theorem callsFromObjects_written : ∀ {objects : List Json} {calls : List ParsedCall},
    callsFromObjects lib objects = .ok (some calls) →
      objects.all isCallObject = true ∧
        List.Forall₂ (ArgumentSource.WrittenAs lib) (objects.map objectSource) calls
  | [], calls, h => by
      cases h
      exact ⟨rfl, .nil⟩
  | object :: rest, calls, h => by
      unfold callsFromObjects at h
      obtain ⟨r, hr, h⟩ := bind_ok h
      cases r with
      | none => cases h
      | some call =>
        obtain ⟨later, hlater, h⟩ := bind_ok h
        cases later with
        | none => cases h
        | some later =>
          cases h
          obtain ⟨hcall, hwritten⟩ := objectSource_written hr
          obtain ⟨hall, hrest⟩ := callsFromObjects_written hlater
          exact ⟨by rw [List.all_cons, hcall, hall]; rfl, .cons hwritten hrest⟩

/-- One that is no call leaves none of them. -/
theorem callsFromObjects_none : ∀ {objects : List Json},
    callsFromObjects lib objects = .ok none → objects.all isCallObject = false
  | [], h => by cases h
  | object :: rest, h => by
      unfold callsFromObjects at h
      obtain ⟨r, hr, h⟩ := bind_ok h
      rw [List.all_cons]
      cases r with
      | none => rw [(toolCallFromObject_none lib hr).mp rfl, Bool.false_and]
      | some call =>
        obtain ⟨later, hlater, h⟩ := bind_ok h
        cases later with
        | none => rw [callsFromObjects_none hlater, Bool.and_false]
        | some later => cases h

theorem llamaSources_written {text : List Char} {calls : List ParsedCall}
    (h : parseJsonCalls lib text = .ok calls) :
    List.Forall₂ (ArgumentSource.WrittenAs lib) (llamaSources lib text) calls := by
  have hobjects : ∀ {objects : List Json}, (do
      let r ← callsFromObjects lib objects
      return r.getD [] : Except JsonError (List ParsedCall)) = .ok calls →
      List.Forall₂ (ArgumentSource.WrittenAs lib)
        (if objects.all isCallObject then objects.map objectSource else []) calls := by
    intro objects h
    obtain ⟨r, hr, h⟩ := bind_ok h
    cases h
    cases r with
    | none =>
      rw [callsFromObjects_none hr]
      exact .nil
    | some calls =>
      obtain ⟨hall, hwritten⟩ := callsFromObjects_written hr
      rw [hall]
      exact hwritten
  unfold parseJsonCalls at h
  unfold llamaSources startsJson
  split at h
  · cases h
    exact .nil
  · next c rest =>
    simp only
    split at h
    · next hc =>
      rw [if_pos hc]
      split at h
      · next he =>
        rw [he]
        cases h
        exact .nil
      · cases h
      · next objects hl =>
        rw [hl]
        exact hobjects h
      · next object hnot hl =>
        rw [hl]
        have hone : decodedObjects object = [object] := by
          cases object with
          | arr objects => exact absurd rfl (hnot objects)
          | _ => rfl
        simp only [hone]
        exact hobjects h
    · next hc =>
      rw [if_neg hc]
      cases h
      exact .nil

/-- A block parser that agrees with another one where that returns. -/
theorem parse_agrees {p q : BlockParser} {text : List Char} {r : List Char × List ParsedCall}
    (hq : ∀ {block calls}, p block = .ok calls → q block = .ok calls) (h : parse p text = .ok r) :
    parse q text = .ok r := by
  have hretry : ∀ {b : Block} {r : Block × Option (List ParsedCall)},
      parseRetrying p text b = .ok r → parseRetrying q text b = .ok r := by
    intro b r hr
    unfold parseRetrying at hr ⊢
    obtain ⟨calls, hcalls, hr⟩ := bind_ok hr
    rw [hq hcalls, ok_bind]
    split at hr
    · split at hr
      · obtain ⟨inner, hinner, hr⟩ := bind_ok hr
        simp only [hq hinner, ok_bind]
        exact hr
      · exact hr
    · exact hr
  have hfrom : ∀ {fuel last pos : Nat} {r : List Char × List ParsedCall},
      parseFrom p text fuel last pos = .ok r → parseFrom q text fuel last pos = .ok r := by
    intro fuel
    induction fuel with
    | zero => exact fun h => h
    | succ fuel ih =>
      intro last pos r hr
      unfold parseFrom at hr ⊢
      split at hr
      · exact hr
      · obtain ⟨r', hr', hr⟩ := bind_ok hr
        rw [hretry hr', ok_bind]
        split at hr
        · obtain ⟨rest, hrest, hr⟩ := bind_ok hr
          simp only [ih hrest]
          exact hr
        · exact ih hr
  unfold parse at h ⊢
  obtain ⟨raw, hraw, h⟩ := bind_ok h
  rw [hfrom hraw]
  exact h

/-- What is parsed of a text is parsed of it without exceptions. -/
theorem parse_held {parseBlock : BlockParser} {text : List Char} {r : List Char × List ParsedCall}
    (h : parse parseBlock text = .ok r) :
    parse (fun block => .ok (held parseBlock block)) text = .ok r :=
  parse_agrees (fun hb => by unfold held; rw [hb]) h

/-- **Every call is written from its source.** -/
theorem sources_written {reasoning : ReasoningParser} {d : EncodingDialect} {text : List Char}
    {tools : Json} {content : List Char} {calls : List ParsedCall}
    (h : d.tool.parseCompletion lib reasoning text tools = .ok (content, calls)) :
    List.Forall₂ (ArgumentSource.WrittenAs lib) (d.sources lib reasoning text tools) calls := by
  cases d with
  | block d =>
    have hpure := (parse_conserves (held (d.parseBlock lib tools)) (reasoning.strip text)).2.2.1
    rw [parse_held h] at hpure
    cases hpure
    have hsame : ∀ l : List Block, (∀ b ∈ l, b ∈ taken (held (d.parseBlock lib tools))
        (reasoning.strip text)) → List.Forall₂ (fun a b => a = b ∧
          a ∈ taken (held (d.parseBlock lib tools)) (reasoning.strip text)) l l := fun l hl =>
      List.forall₂_same.mpr fun b hb => ⟨rfl, hl b hb⟩
    refine List.rel_flatMap (hsame _ fun _ hb => hb) ?_
    rintro b _ ⟨rfl, hb⟩
    obtain ⟨-, call, calls, hcalls⟩ := taken_interval hb
    have hblock : d.parseBlock lib tools (b.body (reasoning.strip text)) =
        .ok (some (call :: calls)) := by
      unfold held at hcalls
      split at hcalls
      · next hb => rw [hb, hcalls]
      · cases hcalls
    unfold callsOf
    rw [hcalls]
    exact d.sources_written hblock
  | llama3Json =>
    have h : llamaParse lib (reasoning.strip text) = .ok (content, calls) := h
    unfold llamaParse at h
    obtain ⟨calls', hcalls, h⟩ := bind_ok h
    have heq : calls' = calls := by
      cases calls' <;> cases h <;> rfl
    exact llamaSources_written (heq ▸ hcalls)

end Written

/-! ## 3. Strict JSON -/

/-- A strict JSON text of an object: no `NaN`, no `Infinity`, at any depth. -/
def StrictObject (text : List Char) : Prop := ∃ fields, loads text = some (.obj fields)

/-- Encoded arguments are strict; what the model supplied is not looked at. -/
def ArgumentSource.Strict : ArgumentSource → ParsedCall → Prop
  | .supplied _, _ => True
  | .decoded _, call => StrictObject call.arguments

/-- No number of the source is beyond the doubles. -/
def ArgumentSource.finite : ArgumentSource → Bool
  | .supplied _ => true
  | .decoded fields => finiteNumbers (.obj fields)

/-- The object was decoded, or put together from decoded values. -/
def ArgumentSource.Written : ArgumentSource → Prop
  | .supplied _ => True
  | .decoded fields => Writable (.obj fields)

section Strict

variable {repr : Rat → List Char} {lib : JsonLib}

theorem get_writable {fields : Fields} (h : Writable (.obj fields)) (key : String) :
    Writable (Fields.get fields key) := by
  have hmem : ∀ {d : Fields}, (∀ e ∈ d, Writable e.2) → Writable (Fields.get d key) := by
    intro d
    induction d with
    | nil => exact fun _ => trivial
    | cons e d ih =>
      obtain ⟨k, v⟩ := e
      intro hd
      unfold Fields.get
      split
      · exact hd _ List.mem_cons_self
      · exact ih fun e he => hd e (List.mem_cons_of_mem _ he)
  exact hmem (writableFields_iff.mp h.2)

theorem writableItems_iff : ∀ {items : List Json}, WritableItems items ↔ ∀ v ∈ items, Writable v
  | [] => by simp [WritableItems]
  | v :: items => by rw [WritableItems, List.forall_mem_cons, writableItems_iff]

theorem empty_writable : Writable (.obj []) := ⟨List.nodup_nil, trivial⟩

theorem sourceOf_writable {arguments : Json} (h : Writable arguments) :
    (sourceOf arguments).Written := by
  cases arguments with
  | str s => exact trivial
  | obj fields => exact h
  | _ => exact empty_writable

theorem objectSource_writable {object : Json} (h : Writable object) :
    (objectSource object).Written := by
  cases object with
  | obj fields =>
    have harguments : Writable (callArguments fields) := by
      unfold callArguments
      split <;> exact get_writable h _
    exact sourceOf_writable harguments
  | _ => exact empty_writable

theorem coercedArguments_writable (hlib : PythonJson repr lib)
    (declared : List Char → Option String) (pairs : List (List Char × List Char)) :
    Writable (.obj (coercedArguments lib declared [] pairs)) := by
  have hvalue : ∀ (value : List Char) (t : Option String), Writable (coerced lib value t) := by
    intro value t
    unfold coerced
    split
    · trivial
    · split
      · next v hv => exact loads_writable (hlib.read hv)
      · trivial
  have hfrom : ∀ (pairs : List (List Char × List Char)) (d : Fields), Writable (.obj d) →
      Writable (.obj (coercedArguments lib declared d pairs)) := by
    intro pairs
    induction pairs with
    | nil => exact fun _ hd => hd
    | cons p pairs ih => exact fun d hd => ih _ (set_writable hd (hvalue _ _))
  exact hfrom pairs [] empty_writable

theorem decodedObjects_writable {v : Json} (h : Writable v) :
    ∀ object ∈ decodedObjects v, Writable object := by
  cases v with
  | arr items => exact writableItems_iff.mp h
  | _ =>
    intro object hobject
    rw [List.mem_singleton.mp hobject]
    exact h

/-- Every source can be written again. -/
theorem sources_writable (hlib : PythonJson repr lib) (d : EncodingDialect)
    (reasoning : ReasoningParser) (text : List Char) (tools : Json) :
    ∀ s ∈ d.sources lib reasoning text tools, s.Written := by
  intro s hs
  cases d with
  | block d =>
    obtain ⟨b, -, hs⟩ := List.mem_flatMap.mp hs
    cases d with
    | hermes =>
      unfold BlockDialect.sources hermesSources at hs
      simp only at hs
      split at hs
      · next object hobject =>
        split at hs
        · rw [List.mem_singleton.mp hs]
          exact objectSource_writable (loads_writable (hlib.read hobject))
        · cases hs
      · cases hs
    | qwen3Coder =>
      obtain ⟨f, -, rfl⟩ := List.mem_map.mp hs
      exact coercedArguments_writable hlib _ _
    | glm47 =>
      rw [List.mem_singleton.mp hs]
      exact coercedArguments_writable hlib _ _
  | llama3Json =>
    unfold EncodingDialect.sources llamaSources at hs
    simp only at hs
    split at hs
    · split at hs
      · next decoded hdecoded =>
        split at hs
        · obtain ⟨object, hobject, rfl⟩ := List.mem_map.mp hs
          exact objectSource_writable
            (decodedObjects_writable (loads_writable (hlib.read hdecoded)) object hobject)
        · cases hs
      · cases hs
    · cases hs

/-- What is written of an object is strict where its numbers are finite. -/
theorem strict_iff_finite (hrepr : ReprReads repr) (hlib : PythonJson repr lib)
    {s : ArgumentSource} {call : ParsedCall} (hs : s.Written) (hw : s.WrittenAs lib call) :
    s.Strict call ↔ s.finite = true := by
  cases s with
  | supplied text => exact ⟨fun _ => rfl, fun _ => trivial⟩
  | decoded fields =>
    unfold ArgumentSource.Strict ArgumentSource.finite StrictObject
    simp only
    rw [hlib.writes hw, loads_dumps hrepr hs]
    split
    · next hfin => exact ⟨fun _ => hfin, fun _ => ⟨fields, rfl⟩⟩
    · next hfin => exact ⟨fun ⟨_, h⟩ => (by cases h), fun h => absurd h hfin⟩

/-- **Encoded arguments are strict JSON objects exactly where no decoded number is beyond the
    doubles**: call by call, the arguments are the model's own string or a written object. -/
theorem arguments_strict_iff (hrepr : ReprReads repr) (hlib : PythonJson repr lib)
    (reasoning : ReasoningParser) (d : EncodingDialect) (text : List Char) (tools : Json)
    {content : List Char} {calls : List ParsedCall}
    (h : d.tool.parseCompletion lib reasoning text tools = .ok (content, calls)) :
    List.Forall₂ (ArgumentSource.WrittenAs lib) (d.sources lib reasoning text tools) calls ∧
    (List.Forall₂ ArgumentSource.Strict (d.sources lib reasoning text tools) calls ↔
      ∀ s ∈ d.sources lib reasoning text tools, s.finite = true) := by
  have hwritten := sources_written h
  refine ⟨hwritten, ?_⟩
  have hwritable := sources_writable hlib d reasoning text tools
  clear h
  generalize d.sources lib reasoning text tools = sources at hwritten hwritable
  induction hwritten with
  | nil => exact ⟨fun _ => nofun, fun _ => .nil⟩
  | cons hw _ ih =>
    obtain ⟨hs, hrest⟩ := List.forall_mem_cons.mp hwritable
    rw [List.forall₂_cons, List.forall_mem_cons]
    exact and_congr (strict_iff_finite hrepr hlib hs hw) (ih hrest)

end Strict

/-- `<tool_call>{"name": "f", "arguments": {"x": ` and a value of the argument. -/
def hermesText (value : List Char) : List Char :=
  Reasoning.toolOpen ++ "\x7b\"name\": \"f\", \"arguments\": \x7b\"x\": ".toList ++ value ++
    ['}', '}'] ++ Reasoning.toolClose

/-- `{"x": value}` -/
def writtenArguments (value : List Char) : List Char := "\x7b\"x\": ".toList ++ value ++ ['}']

/-- A nested list of numbers is encoded strictly. -/
theorem arguments_strict_list :
    List.Forall₂ ArgumentSource.Strict
      (EncodingDialect.sources (pythonJson exactRepr) (.block .hermes) noReasoning
        (hermesText ['[', '1', ',', '[', '2', ']', ']']) .null)
      [⟨['f'], writtenArguments ['[', '1', ',', ' ', '[', '2', ']', ']']⟩] := by
  have hrun : (EncodingDialect.block .hermes).tool.parseCompletion (pythonJson exactRepr) noReasoning
      (hermesText ['[', '1', ',', '[', '2', ']', ']']) .null =
        .ok ([], [⟨['f'], writtenArguments ['[', '1', ',', ' ', '[', '2', ']', ']']⟩]) := by
    decide +kernel
  exact (arguments_strict_iff exactRepr_reads (pythonJson_python exactRepr) noReasoning
    (.block .hermes) _ .null hrun).2.mpr (List.all_eq_true.mp (by decide +kernel))

/-- **A number beyond the doubles is written as `Infinity`.** -/
theorem overflow_not_strict :
    ¬ ∀ (repr : Rat → List Char) (lib : JsonLib) (reasoning : ReasoningParser)
      (d : EncodingDialect) (text : List Char) (tools : Json) (content : List Char)
      (calls : List ParsedCall), ReprReads repr → PythonJson repr lib →
        d.tool.parseCompletion lib reasoning text tools = .ok (content, calls) →
          List.Forall₂ ArgumentSource.Strict (d.sources lib reasoning text tools) calls := by
  intro hall
  have hrun : (EncodingDialect.block .hermes).tool.parseCompletion (pythonJson exactRepr) noReasoning
      (hermesText ['1', 'e', '9', '9', '9']) .null =
        .ok ([], [⟨['f'], writtenArguments "Infinity".toList⟩]) := by decide +kernel
  have hstrict := hall _ _ _ _ _ _ _ _ exactRepr_reads (pythonJson_python exactRepr) hrun
  have hdecoded : (EncodingDialect.sources (pythonJson exactRepr) (.block .hermes) noReasoning
      (hermesText ['1', 'e', '9', '9', '9']) .null).all (fun s => match s with
        | .supplied _ => false
        | .decoded _ => true) = true := by decide +kernel
  have hrefused : (loads (writtenArguments "Infinity".toList)).isNone = true := by decide +kernel
  obtain ⟨s, hs, hcall⟩ := forall₂_right hstrict _ List.mem_cons_self
  cases s with
  | supplied text => exact Bool.false_ne_true (List.all_eq_true.mp hdecoded _ hs)
  | decoded fields =>
    obtain ⟨_, hloads⟩ := hcall
    rw [hloads] at hrefused
    cases hrefused

end RolloutProxy.ToolParser
