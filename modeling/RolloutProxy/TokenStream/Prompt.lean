/-
  File:      RolloutProxy/TokenStream/Prompt.lean
  Subject:   BUILDING A PROMPT from a stream state and normalized messages: the pure part of
             `build_prompt`, `_full_render`, `_delta_ids` and `_turn_gap_ids` (token_stream.py).

  The measured values a manager keeps (`_sys_ids`, `_gen_ids`, `_end_ids`, `_header_ids`) are
  values of functions of its tokenizer, so they are functions here. `deltaIds` is cut where the
  source's steps are: the checks on the history (`newMessages`), the profile's hook
  (`preparedMessages`), the render without the implicit prefix (`strippedDelta`), and the
  continuation header the engine may have sampled already (`elideHeader`).
-/
import RolloutProxy.TokenStream.State

namespace RolloutProxy

namespace ManagerConfig

variable (c : ManagerConfig)

/-! ## 1. What is measured once -/

/-- `_generation_prompt_ids`. -/
def generationPromptIds : Except PyError (List Int) :=
  c.tokenizer.tokenize "generation prompt" c.generationPrompt

/-- `_turn_end_ids`. -/
def turnEndIds : Except PyError (List Int) :=
  c.tokenizer.tokenize "assistant turn end" c.assistantTurnEnd

/-- The throwaway user message of the prefix probes. -/
def prefixProbe : Fields :=
  [("role", .str "user"), ("content", .str "__rollout_proxy_prefix_probe__")]

/-- The throwaway content of the header probe. -/
def headerProbe : String := "__rollout_proxy_header_probe__"

/-- The two probe renders; an exception of either leaves the prefix unmeasured. -/
def probeRenders : Option (List Int × List Int) :=
  match c.tokenizer.render "implicit prefix (one message)" [prefixProbe] .null none,
      c.tokenizer.render "implicit prefix (two messages)" [prefixProbe, prefixProbe] .null none with
  | .ok one, .ok two => some (one, two)
  | _, _ => none

/-- `_measure_implicit_prefix`: the prefix, or `none` where it stays unmeasured. -/
def measureImplicitPrefix : Option (List Int) :=
  match c.probeRenders with
  | none => none
  | some (one, two) =>
    let n : Int := 2 * one.length - two.length
    if n < 0 ∨ two ≠ one ++ one.drop n.toNat then none else some (one.take n.toNat)

/-- The characters before the first occurrence of `sep`, if there is one. -/
def headBefore (sep : List Char) : List Char → Option (List Char)
  | [] => if sep.isEmpty then some [] else none
  | ch :: rest =>
    if sep.isPrefixOf (ch :: rest) then some [] else (headBefore sep rest).map (ch :: ·)

/-- `_system_header_ids`: `[]` where the probe cannot be rendered or read. -/
def systemHeaderIds : List Int :=
  match c.tokenizer.renderText [[("role", .str "system"), ("content", .str headerProbe)]] with
  | .error _ => []
  | .ok rendered =>
    match headBefore headerProbe.toList rendered.toList with
    | none => []
    | some [] => []
    | some head =>
      match c.tokenizer.tokenize "system header" (String.ofList head) with
      | .ok ids => ids
      | .error _ => []

/-! ## 2. The opening render -/

/-- The effort goes to the template only where it differs from the profile's default. -/
def templateEffort (effort : Option String) : Option String :=
  if effort ≠ c.defaultReasoningEffort then effort else none

/-- `_full_render`. -/
def fullRender (normalized : List Fields) (tools : Json) (effort : Option String) :
    Except PyError (List Int) := do
  let ids ← c.tokenizer.render "first-turn prompt" normalized tools (c.templateEffort effort)
  let gen ← c.generationPromptIds
  return ids ++ gen

/-! ## 3. The inter-turn delta -/

/-- The first position where the history differs, with the role found there. -/
def modifiedAt : Nat → List Fields → List Fields → Option (Nat × String)
  | i, prev :: ps, cur :: cs =>
    if sameMessage prev cur then modifiedAt (i + 1) ps cs else some (i, roleText cur)
  | _, _, _ => none

/-- `_GAP_ROLES`. -/
def gapRole (msg : Fields) : Bool := ["tool", "user", "system"].any (hasRole msg)

/-- The assistant echo and the messages behind it, once the history has been checked. -/
def newMessages (previous normalized : List Fields) :
    Except PyError (Fields × List Fields) :=
  let n := previous.length
  if normalized.length < n + 2 then refuse (.notExtending normalized.length (n + 2)) else
  match modifiedAt 0 previous normalized with
  | some (i, role) => refuse (.historyModified i role)
  | none =>
    match normalized.drop n with
    | [] => refuse (.notExtending normalized.length (n + 2))
    | echo :: new =>
      if !isAssistant echo then refuse (.echoExpected n (roleText echo)) else
      match new.filter fun m => !gapRole m with
      | [] => .ok (echo, new)
      | bad => refuse (.gapRoles (bad.map roleText))

/-- The assistant message the hook sees: the response we served, not the client's echo. -/
def servedAssistant (state : SessionState) (echo : Fields) : Fields :=
  match state.lastTurn.bind (·.parsedCompletion) with
  | some parsed =>
    [("role", .str "assistant"),
      ("content", match parsed.messageContent with | some t => .str t | none => .null),
      ("tool_calls", match parsed.toolCalls with
        | some calls => .arr (calls.map ToolCall.toJson)
        | none => .null)]
  | none => echo

/-- The new messages as the template will see them. -/
def preparedMessages (state : SessionState) (echo : Fields) (new : List Fields) :
    Except PyError (List Fields) :=
  match c.prepareDeltaMessages with
  | none => .ok new
  | some prepare => prepare new (servedAssistant state echo)

/-- `_reject_unstripped_system_prefix`, for an unmeasured prefix. -/
def rejectUnstrippedPrefix (new : List Fields) (delta : List Int) : Except PyError Unit :=
  let header := c.systemHeaderIds
  if (new.head?.map (hasRole · "system")).getD false then .ok ()
  else if header ≠ [] ∧ delta.take header.length = header then
    refuse (.unstrippedPrefix ((new.head?.map roleText).getD ""))
  else .ok ()

/-- The render of the new messages without the template's implicit prefix. -/
def strippedDelta (sid : String) (new : List Fields) : Except PyError (List Int) := do
  let delta ← c.tokenizer.render ("session " ++ sid ++ ": inter-turn delta") new .null none
  match c.measureImplicitPrefix with
  | none =>
    c.rejectUnstrippedPrefix new delta
    return delta
  | some [] => return delta
  | some sys =>
    if delta.take sys.length = sys then return delta.drop sys.length
    else refuse (.prefixMissing (new.map roleText))

/-- A continuation header the stream already ends with is not repeated. -/
def elideHeader (stream delta : List Int) : List String → Except PyError (List Int)
  | [] => .ok delta
  | header :: rest => do
    let ids ← c.tokenizer.tokenize "continuation header" header
    if ids ≠ [] ∧ lastN ids.length stream = ids then
      if delta.take ids.length = ids then .ok (delta.drop ids.length)
      else refuse (.headerMismatch header)
    else elideHeader stream delta rest

/-- Whether the stream ends with a complete assistant ending. -/
def endsComplete (stream : List Int) : List String → Except PyError Bool
  | [] => .ok false
  | ending :: rest => do
    let ids ← c.tokenizer.tokenize "completed assistant ending" ending
    if ids ≠ [] ∧ lastN ids.length stream = ids then return true
    else endsComplete stream rest

/-- `_turn_gap_ids`: the part of the assistant ending the stream does not already have. -/
def turnGapIds (stream : List Int) : Except PyError (List Int) := do
  if ← c.endsComplete stream c.assistantTurnEndings then return []
  let ending ← c.turnEndIds
  return missing stream ending

/-- `_delta_ids`. -/
def deltaIds (sid : String) (state : SessionState) (normalized : List Fields) :
    Except PyError (List Int) := do
  let (echo, new) ← newMessages state.messages normalized
  let new ← c.preparedMessages state echo new
  let delta ← c.strippedDelta sid new
  let delta ← c.elideHeader state.stream delta c.continuationHeaders
  let gap ← c.turnGapIds state.stream
  let gen ← c.generationPromptIds
  return gap ++ delta ++ gen

/-! ## 4. The prompt of a request -/

/-- `_check_reasoning_effort`. -/
def checkReasoningEffort (state : SessionState) (effort : Option String) : Except PyError Unit :=
  if effort ≠ state.reasoningEffort then refuse .effortChanged else .ok ()

/-- What `build_prompt` does behind its lock section, for the state it found there. -/
def promptFor (sid : String) (state : Option SessionState) (evicted : Bool)
    (normalized : List Fields) (tools : Json) (effort : Option String) :
    Except PyError (List Int) :=
  match normalized.findIdx? isAssistant with
  | none =>
    match state with
    | none => c.fullRender normalized tools effort
    | some st =>
      if extendsConversation st.messages normalized then refuse (.echoMissing st.messages.length)
      else c.fullRender normalized tools effort
  | some i =>
    match state with
    | none => if evicted then refuse (.evicted c.maxSessions) else refuse (.noStream i)
    | some st => do
      if !Json.pyEqItems (toolList tools) st.tools then refuse .toolsChanged
      checkReasoningEffort st effort
      let delta ← c.deltaIds sid st normalized
      return st.stream ++ delta

end ManagerConfig

end RolloutProxy
