/-
  File:      RolloutProxy/Errors.lean
  Subject:   THE EXCEPTIONS of the serving path, one constructor for each raise site.

  `TokenStreamError` has a constructor for each place token_stream.py, request_validation.py and
  the gpt-oss hook raise it, carrying the values its message is formatted from; `text` is that
  message, word for word. `PyError` adds the other exceptions a turn can end in, as far as the
  completion handler tells them apart when it picks a status code.
-/
import RolloutProxy.Text

namespace RolloutProxy

/-- A request cannot be served strictly token-in-token-out. -/
inductive TokenStreamError where
  -- normalize_messages
  | messagesNotList
  | messageNotObject (index : Nat)
  | unsupportedRole (index : Nat)
  | badContent (index : Nat)
  | unsupportedPart (index : Nat)
  -- validate_tools
  | toolsNotList
  | notFunctionTool
  | unnamedTool
  | badToolParameters
  | strictTool
  -- as_token_ids and _tokenize
  | noInputIds (what : String) (keys : List String)
  | notTokenSequence (what : String) (type : String)
  | manyConversations (what : String) (n : Nat)
  | notTokenId (what : String) (type : String) (index : Nat)
  | cannotTokenize (what text reason : String)
  -- build_prompt, cached_turn and _delta_ids
  | noSessionId
  | echoMissing (position : Nat)
  | evicted (maxSessions : Nat)
  | noStream (firstAssistant : Nat)
  | toolsChanged
  | effortChanged
  | replaysSpent (replays : Nat)
  | notExtending (got need : Nat)
  | historyModified (index : Nat) (role : String)
  | echoExpected (position : Nat) (role : String)
  | gapRoles (roles : List String)
  | prefixMissing (roles : List String)
  | unstrippedPrefix (role : String)
  | headerMismatch (header : String)
  -- prepare_delta_messages (gpt-oss)
  | instructionsInDelta
  | unknownCall
  | callNameDisagrees
  -- the request checks generate() converts
  | invalidParameter (message : String)
  | effortUnknown
  | effortUnsupported (value : String) (supported : List String)
  | noModel
  | modelSwitched (pinned model : String)
  deriving DecidableEq

/-- `repr` of a string without quotes or escapes in it. -/
def quoted (s : String) : String := "'" ++ s ++ "'"

def quotedList (l : List String) : String := "[" ++ joinWith ", " (l.map quoted) ++ "]"

/-- The message of the exception, for the stream `sid`. -/
def TokenStreamError.text (sid : String) : TokenStreamError → String
  | .messagesNotList => "messages must be a list of message objects"
  | .messageNotObject i => "messages[" ++ toString i ++ "] must be an object"
  | .unsupportedRole i => "messages[" ++ toString i ++ "] has an unsupported role"
  | .badContent i => "messages[" ++ toString i ++ "].content must be text, text parts, or null"
  | .unsupportedPart i => "messages[" ++ toString i ++ "]: only text content parts are supported; " ++
      "image, audio, file, and unknown parts cannot be discarded"
  | .toolsNotList => "tools must be a list of function definitions or null"
  | .notFunctionTool => "Only function tools are supported"
  | .unnamedTool => "Each tool must name a function"
  | .badToolParameters => "Tool parameters must be a JSON schema object"
  | .strictTool => "Strict tool schemas are not enforced by token-ID transports"
  | .noInputIds what keys =>
      what ++ ": tokenizer returned a mapping without 'input_ids': " ++ quotedList keys
  | .notTokenSequence what type =>
      what ++ ": tokenizer returned " ++ type ++ ", expected a sequence of int token IDs"
  | .manyConversations what n =>
      what ++ ": tokenizer returned " ++ toString n ++ " conversations, expected 1"
  | .notTokenId what type i => what ++ ": tokenizer returned " ++ type ++ " at index " ++
      toString i ++ ", expected int token IDs"
  | .cannotTokenize what text reason => "tokenizer cannot tokenize the " ++ what ++ " " ++
      quoted text ++ ": it needs encode(text, add_special_tokens=False) or plain-call " ++
      "tokenization (" ++ reason ++ ")"
  | .noSessionId => "Strict token-in-token-out requires a session_id"
  | .echoMissing p => "Session " ++ sid ++ ": request extends the previous conversation but " ++
      "carries no assistant message at position " ++ toString p ++ " — the sampled assistant turn " ++
      "is missing from the history, so the request cannot be served token-in-token-out.  Echo back " ++
      "every assistant message the proxy returned, including tool-call-only turns whose content is null."
  | .evicted n => "Stream " ++ sid ++ ": its tokens were evicted (LRU) before this turn, so this " ++
      "conversation cannot continue. More than max_sessions=" ++ toString n ++ " agent streams were " ++
      "retained in this manager (shared per model profile): delete finished rollouts " ++
      "(DELETE /sessions/\x7bid\x7d) to release all of their agents' slots, or raise the cap where " ++
      "TokenStreamManager is built."
  | .noStream i => "Session " ++ sid ++ ": no token stream exists but the request carries an " ++
      "assistant message at position " ++ toString i ++ "; refusing to re-tokenize assistant content"
  | .toolsChanged => "Session " ++ sid ++ ": tool definitions cannot change within a conversation; " ++
      "repeat the opening tools or start a new conversation"
  | .effortChanged => "Session " ++ sid ++ ": reasoning_effort cannot change within a conversation " ++
      "or retry; repeat the opening effort or start a new conversation"
  | .replaysSpent n => "Session " ++ sid ++ ": this request has already been re-served " ++
      toString n ++ " times from the cached turn and is being repeated with matching normalized " ++
      "messages again; the proxy cannot re-sample it without forking the session's token stream. " ++
      "Continue the conversation (echo the assistant turn and append the new messages) or open a " ++
      "new session to sample afresh."
  | .notExtending got need => "Session " ++ sid ++ ": request does not extend the previous " ++
      "conversation (" ++ toString got ++ " messages, need at least " ++ toString need ++ ")"
  | .historyModified i role => "Session " ++ sid ++ ": conversation history was modified at message " ++
      toString i ++ " (role=" ++ quoted role ++ ")"
  | .echoExpected p role => "Session " ++ sid ++ ": expected an assistant echo at position " ++
      toString p ++ ", got role=" ++ quoted role
  | .gapRoles roles => "Session " ++ sid ++ ": inter-turn messages may only have roles " ++
      "('tool', 'user', 'system'), got " ++ quotedList roles
  | .prefixMissing roles => "Session " ++ sid ++ ": the inter-turn delta for new messages " ++
      quotedList roles ++ " does not begin with the template's measured per-render prefix, so the " ++
      "template renders them as part of its top-of-conversation block (bos / default system " ++
      "preamble) rather than a mid-stream turn.  This is usually a system message " ++
      "mid-conversation, which this template cannot place token-in-token-out; keep system " ++
      "messages in the opening turn."
  | .unstrippedPrefix role => "Session " ++ sid ++ ": the inter-turn delta opens with the chat " ++
      "template's system header, but the new messages start with role=" ++ quoted role ++ " — the " ++
      "template adds an implicit system prefix to every render and this one could not be measured " ++
      "(the user-message probes failed or could not isolate a fixed prefix), so appending the " ++
      "delta would inject a second system prompt mid-stream.  Refusing rather than corrupting " ++
      "the session's token stream."
  | .headerMismatch h => "Session " ++ sid ++ ": sampled continuation header " ++ quoted h ++
      " does not match the next message role"
  | .instructionsInDelta => "gpt-oss system/developer instructions belong in the opening request"
  | .unknownCall => "gpt-oss tool result must identify a preceding function call"
  | .callNameDisagrees => "gpt-oss tool result name disagrees with its tool_call_id"
  | .invalidParameter m => m
  | .effortUnknown => "reasoning_effort must be a supported effort string or null"
  | .effortUnsupported v l => "Unsupported reasoning_effort " ++ quoted v ++
      " for this model; expected one of " ++ joinWith ", " l
  | .noModel => "Session " ++ sid ++ ": the first request must name a model (the OpenAI 'model' " ++
      "field) so the proxy can pick its tokenizer"
  | .modelSwitched pinned model => "Session " ++ sid ++ " is pinned to model " ++ quoted pinned ++
      " but the request names " ++ quoted model ++ "; a session cannot switch models (and " ++
      "tokenizers) mid-stream"

/-- The exceptions a turn can end in, as the completion handler distinguishes them. -/
inductive PyError where
  | tokenStream (e : TokenStreamError)
  | unknownModel (model : String)
  /-- `httpx.HTTPStatusError` with the response's status -/
  | httpStatus (status : Nat) (text : String)
  | engineAbort (message : String)
  | engine (message : String)
  /-- any other exception: a tokenizer's, a transport's, a worker thread's -/
  | other (message : String)
  deriving DecidableEq

/-- `raise TokenStreamError(...)`. -/
def refuse {α : Type} (e : TokenStreamError) : Except PyError α := .error (.tokenStream e)

@[simp] theorem refuse_ne_ok {α : Type} (e : TokenStreamError) (a : α) :
    refuse e ≠ .ok a := by simp [refuse]

end RolloutProxy
