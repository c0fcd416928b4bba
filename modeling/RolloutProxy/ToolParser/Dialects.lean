/-
  File:      RolloutProxy/ToolParser/Dialects.lean
  Subject:   THE DIALECTS (tokenization/tool_parser.py): Hermes, Llama 3 JSON, Qwen3 coder and GLM,
             with `_tool_call_from_object`, `_parameter_types` and `_coerce`.

  The JSON library is a record of functions that may raise. What the dialects catch is
  `ValueError` alone, so `catchValue` lets every other exception through.
-/
import RolloutProxy.ToolParser.Markup
import RolloutProxy.Reasoning.Scanner
import RolloutProxy.TokenStream.Messages
import RolloutProxy.Lib.Except

namespace RolloutProxy.ToolParser

/-- `json.loads` with `_reject_nonfinite`, `json.dumps` without and with `allow_nan=False`, and
    `str` of a decoded value. -/
structure JsonLib where
  loads : List Char → Except JsonError Json
  dumps : Json → Except JsonError (List Char)
  dumpsFinite : Json → Except JsonError (List Char)
  str : Json → Except JsonError (List Char)

/-- `except ValueError: return default`. -/
def catchValue {α : Type} (x : Except JsonError α) (fallback : α) : Except JsonError α :=
  match x with
  | .error .valueError => .ok fallback
  | _ => x

section Dialects

variable (lib : JsonLib)

/-! ## 1. Calls from JSON objects -/

/-- `str(obj["name"])`. -/
def nameText : Json → Except JsonError (List Char)
  | .str s => .ok s.toList
  | v => lib.str v

/-- `_tool_call_from_object`; arguments that are no object are sent as an empty one. -/
def toolCallFromObject : Json → Except JsonError (Option ParsedCall)
  | .obj fields =>
    if (Fields.get fields "name").truthy then do
      let name ← nameText lib (Fields.get fields "name")
      let arguments :=
        if (Fields.get fields "arguments").isNull then Fields.get fields "parameters"
        else Fields.get fields "arguments"
      match arguments with
      | .str s => return some ⟨name, s.toList⟩
      | .obj d => return some ⟨name, ← lib.dumps (.obj d)⟩
      | _ => return some ⟨name, ← lib.dumps (.obj [])⟩
    else .ok none
  | _ => .ok none

/-- `HermesToolParser._parse_block`. -/
def hermesBlock : BlockParser := fun block =>
  match lib.loads block with
  | .error .valueError => .ok (some [])
  | .error e => .error e
  | .ok object => do
    match ← toolCallFromObject lib object with
    | some call => return some [call]
    | none => return some []

/-- The loop over the decoded objects; `none` where one of them is no call. -/
def callsFromObjects : List Json → Except JsonError (Option (List ParsedCall))
  | [] => .ok (some [])
  | object :: rest => do
    match ← toolCallFromObject lib object with
    | none => return none
    | some call => return (← callsFromObjects rest).map (call :: ·)

/-- `Llama3JsonToolParser._parse_json_calls`. -/
def parseJsonCalls (text : List Char) : Except JsonError (List ParsedCall) :=
  match text with
  | [] => .ok []
  | c :: _ =>
    if c == '{' || c == '[' then
      match lib.loads text with
      | .error .valueError => .ok []
      | .error e => .error e
      | .ok (.arr objects) => return (← callsFromObjects lib objects).getD []
      | .ok object => return (← callsFromObjects lib [object]).getD []
    else .ok []

/-- `Llama3JsonToolParser.parse`. -/
def llamaParse (text : List Char) : Except JsonError (List Char × List ParsedCall) := do
  match ← parseJsonCalls lib (stripChars text) with
  | [] => return (stripChars text, [])
  | calls => return ([], calls)

/-! ## 2. Declared types -/

/-- `text.lower()` on the ASCII letters, the only ones a type name is compared with. -/
def lower (s : String) : String := String.ofList (s.toList.map Char.toLower)

/-- The declared type of one property. -/
def propertyType : Json → Option String
  | .obj schema =>
    let declared := match Fields.get schema "type" with
      | .arr types => (types.find? fun t => !Json.pyEq t (.str "null")).getD .null
      | t => t
    declared.asStr.map fun t => lower (strip t)
  | _ => none

/-- The declared types of one function. -/
def declaredTypes (properties : Fields) : Dict String String :=
  properties.foldl
    (fun declared p => match propertyType p.2 with
      | some t => declared.set p.1 t
      | none => declared) ∅

/-- `_parameter_types`; the names of accepted tools are strings. -/
def parameterTypes (tools : Json) : Dict String (Dict String String) :=
  (toolList tools).foldl
    (fun types tool =>
      match tool with
      | .obj fields =>
        let function := match Fields.get fields "function" with
          | .obj f => f
          | _ => fields
        match Fields.get function "name", Fields.get function "parameters" with
        | .str name, .obj parameters =>
          match Fields.get parameters "properties" with
          | .obj properties =>
            if name = "" then types else types.set name (declaredTypes properties)
          | _ => types
        | _, _ => types
      | _ => types) ∅

/-- The declared type of a parameter. -/
def declaredType (types : Dict String (Dict String String)) (function key : List Char) :
    Option String :=
  (types.get? (String.ofList function)).bind (·.get? (String.ofList key))

/-- `_coerce`: declared text stays text, anything else is decoded where it can be. -/
def coerce (value : List Char) (declared : Option String) : Except JsonError Json :=
  if declared = some "string" ∨ declared = some "str" then .ok (.str (String.ofList value))
  else catchValue (lib.loads value) (.str (String.ofList value))

/-! ## 3. XML dialects -/

/-- The arguments of one function, as a dict comprehension builds them. -/
def qwenArguments (declared : List Char → Option String) :
    Fields → List (List Char × List Char) → Except JsonError Fields
  | arguments, [] => .ok arguments
  | arguments, (key, value) :: rest => do
    let v ← coerce lib (trimNewlines value) (declared key)
    qwenArguments declared (Fields.set arguments (String.ofList key) v) rest

def parameterMarker : List Char := Reasoning.parameterHead
def functionMarker : List Char := Reasoning.functionHead

/-- The calls of the functions of a block; `none` where the markup of one is damaged. -/
def qwenCalls (types : Dict String (Dict String String)) :
    List (List Char × List Char) → Except JsonError (Option (List ParsedCall))
  | [] => .ok (some [])
  | (name, body) :: rest =>
    let params := splitSections body parameterMarker Reasoning.parameterClose
    if !params.2 || (params.1.isEmpty && !body.all isSpace) then .ok none
    else do
      let arguments ← qwenArguments lib (declaredType types name) [] params.1
      let call : ParsedCall := ⟨name, ← lib.dumps (.obj arguments)⟩
      return (← qwenCalls types rest).map (call :: ·)

/-- `Qwen3CoderToolParser._parse_block`. -/
def qwenBlock (types : Dict String (Dict String String)) : BlockParser := fun block =>
  let functions := splitSections block functionMarker Reasoning.functionClose
  if !functions.2 then .ok none else qwenCalls lib types functions.1

def keyOpen : List Char := ['<', 'a', 'r', 'g', '_', 'k', 'e', 'y', '>']
def keyClose : List Char := ['<', '/', 'a', 'r', 'g', '_', 'k', 'e', 'y', '>']
def valueOpen : List Char := ['<', 'a', 'r', 'g', '_', 'v', 'a', 'l', 'u', 'e', '>']
def valueClose : List Char := ['<', '/', 'a', 'r', 'g', '_', 'v', 'a', 'l', 'u', 'e', '>']

/-- The loop over the arguments of a GLM block; `none` where the markup is damaged. -/
def glmArguments (declared : List Char → Option String) :
    Nat → Fields → List Char → Except JsonError (Option Fields)
  | 0, _, _ => .ok none
  | fuel + 1, arguments, rest =>
    match partition keyClose rest with
    | none => .ok none
    | some (key, rest) =>
      let key := stripChars key
      if key.isEmpty || key.contains '<' || key.contains '>' ||
          Fields.has arguments (String.ofList key) then .ok none
      else
        let rest := lstrip rest
        if !valueOpen.isPrefixOf rest then .ok none
        else
          match partition valueClose (rest.drop valueOpen.length) with
          | none => .ok none
          | some (value, rest) => do
            let v ← coerce lib value (declared key)
            let arguments := Fields.set arguments (String.ofList key) v
            let rest := stripChars rest
            if rest.isEmpty then return some arguments
            else if !keyOpen.isPrefixOf rest then return none
            else glmArguments declared fuel arguments (rest.drop keyOpen.length)

/-- `GLMToolParser._parse_block`. -/
def glmBlock (types : Dict String (Dict String String)) : BlockParser := fun block =>
  let parts := (partition keyOpen block).getD (block, [])
  let name := stripChars parts.1
  if name.isEmpty || name.any fun ch => isSpace ch || ch == '<' || ch == '>' then .ok none
  else do
    let arguments ←
      if (find keyOpen block 0).isSome then
        glmArguments lib (declaredType types name) (block.length + 1) [] parts.2
      else .ok (some [])
    match arguments with
    | none => return none
    | some arguments => return some [⟨name, ← lib.dumps (.obj arguments)⟩]

end Dialects

/-! ## 4. Completions -/

/-- `HermesToolParser`, `Qwen3CoderToolParser` and `GLMToolParser` behind `strip`. -/
inductive BlockDialect where
  | hermes
  | qwen3Coder
  | glm47
  deriving DecidableEq

/-- `_parse_block` of a dialect, with the types its `_param_types` reads. -/
def BlockDialect.parseBlock (d : BlockDialect) (lib : JsonLib) (tools : Json) : BlockParser :=
  match d with
  | .hermes => hermesBlock lib
  | .qwen3Coder => qwenBlock lib (parameterTypes tools)
  | .glm47 => glmBlock lib (parameterTypes tools)

/-- `parse_completion` of a block dialect: reasoning is stripped, then the blocks are parsed. -/
def BlockDialect.parseCompletion (d : BlockDialect) (lib : JsonLib) (isAlnum : Char → Bool)
    (text : List Char) (tools : Json) : Except JsonError (List Char × List ParsedCall) :=
  parse (d.parseBlock lib tools) (Reasoning.stripReasoning isAlnum text)

end RolloutProxy.ToolParser
