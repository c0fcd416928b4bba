/-
  File:      RolloutProxy/Tokenization/GptOss.lean
  Subject:   THE GPT-OSS PROFILE (tokenization/gpt_oss.py): its hook on the inter-turn messages and
             the texts its stream manager is built with.

  OpenAI tool results carry a call id; a Harmony speaker header carries a function name. The hook
  looks the name up among the calls of the preceding assistant message.
-/
import RolloutProxy.TokenStream.State
import RolloutProxy.Lib.Except

namespace RolloutProxy

namespace GptOss

/-- One element of the calls, as the comprehension that builds `by_id` reads it. -/
def readCall : Json → Except PyError Fields
  | .obj fields =>
    let id := Fields.get fields "id"
    if id.truthy ∧ ¬ id.hashable then
      .error (.other ("unhashable type: '" ++ id.typeName ++ "'"))
    else .ok fields
  | call => .error (.other ("'" ++ call.typeName ++ "' object has no attribute 'get'"))

/-- `assistant.get("tool_calls") or []`. -/
def callsOf (assistant : Fields) : Except PyError (List Fields) :=
  let calls := assistant.get "tool_calls"
  if !calls.truthy then .ok [] else
  match calls with
  | .arr items => items.mapM readCall
  | .str _ => .error (.other "'str' object has no attribute 'get'")
  | .obj _ => .error (.other "'str' object has no attribute 'get'")
  | _ => .error (.other ("'" ++ calls.typeName ++ "' object is not iterable"))

/-- `{call["id"]: call for call in calls if call.get("id")}`, as its entries. -/
def byId (calls : List Fields) : List (Json × Fields) :=
  (calls.filter fun call => (call.get "id").truthy).map fun call => (call.get "id", call)

/-- `by_id.get(call_id)`: of two calls with one id the later one counts. -/
def lookUp (entries : List (Json × Fields)) (id : Json) : Except PyError (Option Fields) :=
  if id.hashable then .ok ((entries.reverse.find? fun e => e.1.pyEq id).map Prod.snd)
  else .error (.other ("unhashable type: '" ++ id.typeName ++ "'"))

/-- The call a tool result belongs to: by its id, or the only call there is. -/
def callFor (calls : List Fields) (entries : List (Json × Fields)) (message : Fields) :
    Except PyError (Option Fields) :=
  if (message.get "tool_call_id").truthy then lookUp entries (message.get "tool_call_id")
  else
    match calls with
    | [call] => .ok (some call)
    | _ => .ok none

/-- `(call.get("function") or call).get("name") if call else None`. -/
def functionName : Option Fields → Except PyError Json
  | none => .ok .null
  | some call =>
    let function := Fields.get call "function"
    if !function.truthy then .ok (call.get "name") else
    match function with
    | .obj fields => .ok (Fields.get fields "name")
    | _ => .error (.other ("'" ++ function.typeName ++ "' object has no attribute 'get'"))

/-- A tool result with the name of the function it answers. -/
def nameResult (calls : List Fields) (entries : List (Json × Fields)) (message : Fields) :
    Except PyError Fields := do
  let call ← callFor calls entries message
  let name ← functionName call
  match name with
  | .str name =>
    if name = "" then refuse .unknownCall
    else if (message.get "name").truthy ∧ ¬ (message.get "name").pyEq (.str name) then
      refuse .callNameDisagrees
    else return message.set "name" (.str name)
  | _ => refuse .unknownCall

/-- One message of the loop. -/
def prepareMessage (calls : List Fields) (entries : List (Json × Fields)) (message : Fields) :
    Except PyError Fields :=
  if hasRole message "tool" then nameResult calls entries message
  else if hasRole message "user" then .ok message
  else refuse .instructionsInDelta

/-- `prepare_delta_messages`. -/
def prepareDeltaMessages (messages : List Fields) (assistant : Fields) :
    Except PyError (List Fields) := do
  let calls ← callsOf assistant
  messages.mapM (prepareMessage calls (byId calls))

/-- The manager of the profile. -/
def managerConfig (tokenizer : Tokenizer) : ManagerConfig :=
  { ManagerConfig.default tokenizer with
    generationPrompt := "<|start|>assistant"
    assistantTurnEnd := "<|end|>"
    assistantTurnEndings := ["<|return|>", "<|call|>", "<|endoftext|>"]
    prepareDeltaMessages := some prepareDeltaMessages
    defaultReasoningEffort := some "medium" }

/-! ## What the hook writes -/

end GptOss

end RolloutProxy
