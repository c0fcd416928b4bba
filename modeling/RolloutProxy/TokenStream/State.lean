/-
  File:      RolloutProxy/TokenStream/State.lean
  Subject:   THE STATE OF A STREAM MANAGER (token_stream.py): the committed turn with its replay
             data, the stream state of one agent, and the manager with its LRU order.

  * The state of an agent's stream is replaced as a whole by each commit; `cached_turn` changes
    only its replay count and a parser only the parsed completion of its last turn.
  * `CommittedTurn.id` is the identity of the Python object, which the parsing path keeps across
    an await: a parsed result is published into that object, not into a later turn.
-/
import RolloutProxy.TokenStream.Tokenizer
import RolloutProxy.Lib.Dict
import RolloutProxy.Lib.Overlap

namespace RolloutProxy

/-- A routing capture as the recorder stores it and as a transport reports it. -/
structure RoutedExpertsBlob where
  data : String
  rows : Int
  start : Int
  cols : Int
  dtype : String
  deriving DecidableEq, Repr

/-- What the engine reported about a turn, and the sampling it ran under. -/
structure EngineMeta where
  weightVersion : Option String
  samplingParams : Option Fields
  routedExperts : Option RoutedExpertsBlob

/-- `{}`. -/
def EngineMeta.empty : EngineMeta := ⟨none, none, none⟩

/-- A tool call of a parsed completion, with the id the proxy gave it. -/
structure ToolCall where
  id : String
  name : String
  arguments : String
  deriving DecidableEq

/-- The OpenAI form of a call. -/
def ToolCall.toJson (c : ToolCall) : Json :=
  .obj [("id", .str c.id), ("type", .str "function"),
    ("function", .obj [("name", .str c.name), ("arguments", .str c.arguments)])]

/-- Canonical response fields cached with a committed sampled turn. -/
structure ParsedCompletion where
  content : Option String
  toolCalls : Option (List ToolCall)
  finishReason : String
  reasoningContent : Option String
  deriving DecidableEq

/-- OpenAI represents a tool-only response with null content. -/
def ParsedCompletion.messageContent (p : ParsedCompletion) : Option String :=
  match p.toolCalls with
  | some (_ :: _) =>
    let text := strip (p.content.getD "")
    if text = "" then none else some text
  | _ => p.content

/-- Replay data whose lifetime is one committed turn of a token stream. -/
structure CommittedTurn where
  id : Nat
  completionLen : Nat
  logProbs : List PyFloat
  finishReason : String
  engineMeta : EngineMeta
  parsedCompletion : Option ParsedCompletion
  tools : Json

/-- Authoritative token stream and message history of one stream. -/
structure SessionState where
  /-- prompt and sampled completion tokens -/
  stream : List Int
  /-- normalized messages of the last request -/
  messages : List Fields
  /-- replay data for `cached_turn` -/
  lastTurn : Option CommittedTurn
  /-- how often the turn has been re-served -/
  replays : Nat
  tools : List Json
  reasoningEffort : Option String

/-- What a manager is built with. -/
structure ManagerConfig where
  tokenizer : Tokenizer
  maxSessions : Nat
  generationPrompt : String
  maxTurnReplays : Nat
  assistantTurnEnd : String
  continuationHeaders : List String
  assistantTurnEndings : List String
  /-- the profile's hook on the new messages and the preceding assistant message -/
  prepareDeltaMessages : Option (List Fields → Fields → Except PyError (List Fields))
  defaultReasoningEffort : Option String

/-- The defaults of `TokenStreamManager(tokenizer)`. -/
def ManagerConfig.default (tokenizer : Tokenizer) : ManagerConfig where
  tokenizer := tokenizer
  maxSessions := 4096
  generationPrompt := "<|im_start|>assistant\n"
  maxTurnReplays := 4
  assistantTurnEnd := "<|im_end|>\n"
  continuationHeaders := []
  assistantTurnEndings := []
  prepareDeltaMessages := none
  defaultReasoningEffort := none

/-- A manager: its streams in LRU order and the ids it evicted. -/
structure TokenStreamManager where
  sessions : Dict String SessionState
  evicted : Dict String Unit
  /-- the identity the next committed turn gets -/
  nextId : Nat

namespace TokenStreamManager

def empty : TokenStreamManager := ⟨∅, ∅, 0⟩

/-- `self._sessions.move_to_end(session_id)`. -/
def touch (m : TokenStreamManager) (sid : String) : TokenStreamManager :=
  { m with sessions := m.sessions.moveToEnd sid }

@[simp] theorem touch_get? (m : TokenStreamManager) (sid k : String) :
    (m.touch sid).sessions.get? k = m.sessions.get? k := by
  simp [touch]

/-- Using a stream the manager does not hold changes nothing. -/
theorem touch_absent {m : TokenStreamManager} {sid : String} (h : m.sessions.contains sid = false) :
    m.touch sid = m := by
  unfold touch
  rw [Dict.moveToEnd_absent ((Dict.contains_eq_false_iff _ _).mp h)]

end TokenStreamManager

end RolloutProxy
