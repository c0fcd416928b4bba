/-
  File:      RolloutProxy/Recorder/Dump.lean
  Subject:   `model_dump()` of the record models (rollout_sessions.py): the raw object a collector
             gets for a session. The creation time, which nothing reads, is left out.
-/
import RolloutProxy.Recorder.Record

namespace RolloutProxy

/-- An optional text as a JSON value. -/
def optStr : Option String → Json
  | none => .null
  | some s => .str s

def idsJson (ids : List Int) : Json := .arr (ids.map .int)

/-- The sampling parameters of a turn as a JSON value. -/
def CompletionRecord.samplingJson (t : CompletionRecord) : Json :=
  match t.samplingParams with
  | none => .null
  | some p => .obj p

/-- `CompletionRecord.model_dump()`. -/
def CompletionRecord.modelDump (t : CompletionRecord) : Fields :=
  [("agent_id", optStr t.agentId),
    ("request_messages", .arr (t.requestMessages.map .obj)),
    ("prompt_token_ids", idsJson t.promptTokenIds),
    ("new_conversation", .bool t.newConversation),
    ("completion_text", .str t.completionText),
    ("completion_token_ids", idsJson t.completionTokenIds),
    ("completion_logprobs", .arr (t.completionLogprobs.map .float)),
    ("finish_reason", optStr t.finishReason),
    ("weight_version", optStr t.weightVersion),
    ("sampling_params", t.samplingJson),
    ("content", optStr t.content),
    ("reasoning_content", optStr t.reasoningContent),
    ("tool_calls", match t.toolCalls with
      | none => .null
      | some calls => .arr (calls.map ToolCall.toJson))]

/-- `RoutedExpertsBlob.model_dump()`. -/
def RoutedExpertsBlob.modelDump (b : RoutedExpertsBlob) : Fields :=
  [("data", .str b.data), ("rows", .int b.rows), ("start", .int b.start), ("cols", .int b.cols),
    ("dtype", .str b.dtype)]

/-- `SessionRecord.model_dump()`. -/
def SessionRecord.modelDump (s : SessionRecord) : Json :=
  .obj [("session_id", .str s.sessionId), ("model_name", optStr s.modelName),
    ("turns", .arr (s.turns.map fun t => .obj t.modelDump)),
    ("routed_experts", .obj (s.routedExperts.entries.map fun e => (e.1, .obj e.2.modelDump))),
    ("completed", .bool s.completed)]

end RolloutProxy
