/-
  File:      RolloutProxy/Recorder/Record.lean
  Subject:   THE SESSION RECORD (rollout_sessions.py) and the readings the recorder takes of an
             agent's turns: the current conversation and its extent (recorder.py).
-/
import RolloutProxy.TokenStream.State
import RolloutProxy.Lib.Base64

namespace RolloutProxy

/-- One completion: the delta it added to its agent's conversation. -/
structure CompletionRecord where
  agentId : Option String
  requestMessages : List Fields
  promptTokenIds : List Int
  newConversation : Bool
  completionText : String
  completionTokenIds : List Int
  completionLogprobs : List PyFloat
  finishReason : Option String
  weightVersion : Option String
  samplingParams : Option Fields
  content : Option String
  reasoningContent : Option String
  toolCalls : Option (List ToolCall)

/-- All recorded data of one session. -/
structure SessionRecord where
  sessionId : String
  modelName : Option String
  turns : List CompletionRecord
  routedExperts : Dict String RoutedExpertsBlob
  completed : Bool

/-- A session without turns. -/
def SessionRecord.open (sessionId : String) (modelName : Option String) : SessionRecord :=
  ⟨sessionId, modelName, [], ∅, false⟩

/-- The turns of one agent, in recorder order. -/
def agentTurns (turns : List CompletionRecord) (agent : Option String) : List CompletionRecord :=
  turns.filter fun t => t.agentId = agent

/-! ## 1. The current conversation -/

/-- The scan from the last turn back to the last `new_conversation`, on the reversed turns. -/
def sinceReset : List CompletionRecord → List CompletionRecord
  | [] => []
  | t :: earlier => if t.newConversation then [t] else t :: sinceReset earlier

/-- `turns[start:]` for the last `start` that opened a conversation. -/
def currentConversation (turns : List CompletionRecord) : List CompletionRecord :=
  (sinceReset turns.reverse).reverse

/-- `sum(1 for m in messages if m.get("role") != "assistant")`. -/
def nonAssistant (messages : List Fields) : List Fields := messages.filter fun m => !isAssistant m

/-- The tokens a turn added to the stream. -/
def CompletionRecord.tokens (t : CompletionRecord) : List Int :=
  t.promptTokenIds ++ t.completionTokenIds

/-- `_conversation_extent`: non-assistant messages and stream length of the conversation. -/
def conversationExtent (turns : List CompletionRecord) : Nat × Nat :=
  ((currentConversation turns).map fun t => (nonAssistant t.requestMessages).length).sum
    |> fun n => (n, ((currentConversation turns).map fun t =>
      t.promptTokenIds.length + t.completionTokenIds.length).sum)

/-- The token stream the current conversation spells out. -/
def recordedStream (turns : List CompletionRecord) : List Int :=
  (currentConversation turns).flatMap CompletionRecord.tokens

/-- **One more turn**: a reset starts the conversation over, any other turn extends it. -/
theorem currentConversation_append (turns : List CompletionRecord) (t : CompletionRecord) :
    currentConversation (turns ++ [t]) =
      if t.newConversation then [t] else currentConversation turns ++ [t] := by
  unfold currentConversation
  rw [List.reverse_append, List.reverse_singleton, List.singleton_append, sinceReset]
  split
  · rfl
  · rw [List.reverse_cons]

theorem recordedStream_append (turns : List CompletionRecord) (t : CompletionRecord) :
    recordedStream (turns ++ [t]) =
      (if t.newConversation then [] else recordedStream turns) ++ t.tokens := by
  unfold recordedStream
  rw [currentConversation_append]
  split <;> simp

/-- The recorded messages of the current conversation. -/
def recordedMessages (turns : List CompletionRecord) : List Fields :=
  (currentConversation turns).flatMap fun t => nonAssistant t.requestMessages

theorem recordedMessages_append (turns : List CompletionRecord) (t : CompletionRecord) :
    recordedMessages (turns ++ [t]) =
      (if t.newConversation then [] else recordedMessages turns) ++
        nonAssistant t.requestMessages := by
  unfold recordedMessages
  rw [currentConversation_append]
  split <;> simp

/-- **The extent counts what the conversation spells out.** -/
theorem conversationExtent_eq (turns : List CompletionRecord) :
    conversationExtent turns =
      ((recordedMessages turns).length, (recordedStream turns).length) := by
  unfold conversationExtent recordedMessages recordedStream
  have h : ∀ t : CompletionRecord,
      t.promptTokenIds.length + t.completionTokenIds.length = t.tokens.length :=
    fun t => (List.length_append).symm
  simp only [List.length_flatMap, h]

theorem agentTurns_append (turns : List CompletionRecord) (t : CompletionRecord)
    (agent : Option String) :
    agentTurns (turns ++ [t]) agent =
      agentTurns turns agent ++ if t.agentId = agent then [t] else [] := by
  unfold agentTurns
  rw [List.filter_append]
  by_cases h : t.agentId = agent <;> simp [h]

end RolloutProxy
