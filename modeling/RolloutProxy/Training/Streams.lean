/-
  File:      RolloutProxy/Training/Streams.lean
  Subject:   FROM A RECORD TO TRAINING STREAMS: `TrainingStream.validate` and `record_to_streams`
             (training.py), on a raw record and on raw stream fields.

  `current` maps an agent to its open stream, by its index in the list of streams; the Python
  dictionary holds the object itself. `extendStream` is what one turn adds to its stream.
-/
import RolloutProxy.Training.RecordValidation
import RolloutProxy.Errors

namespace RolloutProxy

/-- `_name`: a nonblank string. -/
def checkName (value : Json) (label : String) : Except String Unit :=
  match value with
  | .str s => guardE (!isBlank s) (label ++ " must be a nonempty string")
  | _ => .error (label ++ " must be a nonempty string")

/-- The roles of a rollout, agent id to role. -/
abbrev Roles := List (Option String × String)

/-- A registered agent id is null or a nonblank string. -/
def checkAgentId : Option String → Except String Unit
  | none => .ok ()
  | some a => checkName (.str a) "agent_id"

/-- `_roles`. -/
def checkRoles : Roles → Except String Unit
  | [] => .ok ()
  | (agent, role) :: rest => do
    checkAgentId agent
    checkName (.str role) "role"
    checkRoles rest

/-- One recorded turn's `[start, end)` completion span in a training stream. -/
structure TrainingCompletion where
  start : Json
  stop : Json
  weightVersion : Json
  samplingParams : Json
  finishReason : Json

/-- Tokens of one agent conversation with training masks. -/
structure TrainingStream where
  sessionId : Json
  agentId : Json
  role : Json
  segmentIndex : Json
  tokens : List Json
  lossMask : List Json
  logprobs : List Json
  completions : List TrainingCompletion
  routedExperts : Json

/-! ## 1. `TrainingStream.validate` -/

/-- `type(m) is int and m in (0, 1)`. -/
def isMask : Json → Bool
  | .int n => n == 0 || n == 1
  | _ => false

/-- `m != 0` and `m != 1` on mask entries and placeholder logprobs. -/
def isZero (v : Json) : Bool := v.pyEq (.int 0)
def isOne (v : Json) : Bool := v.pyEq (.int 1)

/-- `l[from:to]`, for nonnegative bounds. -/
def span (l : List Json) (start stop : Nat) : List Json := (l.take stop).drop start

/-- The boundaries of a completion behind `cursor`, if they are well formed. -/
def spanOf (c : TrainingCompletion) (cursor size : Nat) : Option (Nat × Nat) :=
  match c.start, c.stop with
  | .int a, .int b =>
    if (cursor : Int) ≤ a ∧ a ≤ b ∧ b ≤ (size : Int) then some (a.toNat, b.toNat) else none
  | _, _ => none

/-- Absent, or a nonblank string. -/
def checkOptionalName (value : Json) (label : String) : Except String Unit :=
  if value.isNull then .ok () else checkName value label

/-- The turn a completion stands for, as the record check reads it. -/
def TrainingStream.turnOf (s : TrainingStream) (c : TrainingCompletion) (cursor start stop : Nat) :
    Json :=
  .obj [("agent_id", s.agentId), ("prompt_token_ids", .arr (span s.tokens cursor start)),
    ("completion_token_ids", .arr (span s.tokens start stop)),
    ("completion_logprobs", .arr (span s.logprobs start stop)),
    ("sampling_params", c.samplingParams)]

/-- The loop over the completions: the turns they stand for. -/
def TrainingStream.turnsFrom (s : TrainingStream) :
    Nat → List TrainingCompletion → Except String (List Json)
  | cursor, [] => do
    guardE (cursor == s.tokens.length) "Completion boundaries do not cover the recorded stream"
    return []
  | cursor, c :: rest => do
    match spanOf c cursor s.tokens.length with
    | none => .error "Invalid or overlapping completion boundaries"
    | some (start, stop) =>
      guardE ((span s.lossMask cursor start).all isZero && (span s.lossMask start stop).all isOne &&
          (span s.logprobs cursor start).all isZero)
        "Masks/logprobs disagree with prompt and completion boundaries"
      checkOptionalName c.weightVersion "weight_version"
      checkOptionalName c.finishReason "finish_reason"
      let turns ← s.turnsFrom stop rest
      return s.turnOf c cursor start stop :: turns

/-- The capture a stream is checked with. -/
def TrainingStream.captures (s : TrainingStream) : Captures :=
  match s.routedExperts with
  | .null => []
  | blob => (agentOf s.agentId).toList.map fun agent => (agent, blob)

/-- `TrainingStream.validate`. -/
def TrainingStream.validate (s : TrainingStream) (requireRoutedExperts : Bool) :
    Except String Unit := do
  checkName s.sessionId "session_id"
  checkOptionalName s.agentId "agent_id"
  checkName s.role "role"
  match s.segmentIndex with
  | .int n => guardE (0 ≤ n) "segment_index must be a nonnegative integer"
  | _ => .error "segment_index must be a nonnegative integer"
  guardE (s.tokens.length == s.lossMask.length && s.lossMask.length == s.logprobs.length)
    "Tokens, loss masks and logprobs must be aligned lists"
  guardE (s.lossMask.all isMask) "Loss masks must contain integer zeros and ones"
  guardE (s.logprobs.all finite) "Logprobs must be finite numbers"
  let turns ← s.turnsFrom 0 s.completions
  validateTurns none true (requireRoutedExperts || !s.routedExperts.isNull) turns s.captures

/-! ## 2. `record_to_streams` -/

/-- The streams built so far, and each agent's open stream by its index. -/
structure StreamsState where
  streams : List TrainingStream
  current : Dict (Option String) Nat

def StreamsState.empty : StreamsState := ⟨[], ∅⟩

/-- The agent id as a stream field. -/
def agentJson : Option String → Json
  | none => .null
  | some a => .str a

/-- The items of a list. -/
def itemsOf : Json → List Json
  | .arr items => items
  | _ => []

/-- One turn's tokens, mask, logprobs and span, appended to its stream. -/
def extendStream (turn : Fields) (s : TrainingStream) : TrainingStream :=
  let prompt := itemsOf (turn.getD "prompt_token_ids" (.arr []))
  let completion := itemsOf (turn.get "completion_token_ids")
  let start := s.tokens.length + prompt.length
  { s with
    tokens := s.tokens ++ prompt ++ completion
    lossMask := s.lossMask ++ (List.replicate prompt.length (.int 0) ++
      List.replicate completion.length (.int 1))
    logprobs := s.logprobs ++ (List.replicate prompt.length (.float (.finite 0)) ++
      itemsOf (turn.getD "completion_logprobs" (.arr [])))
    completions := s.completions ++
      [{ start := .int start, stop := .int ((start + completion.length : Nat)),
         weightVersion := turn.get "weight_version", samplingParams := turn.get "sampling_params",
         finishReason := turn.get "finish_reason" }] }

/-- A stream before its first turn. -/
def openStream (sessionId : Json) (agent : Option String) (role : String) (segment : Nat) :
    TrainingStream where
  sessionId := sessionId
  agentId := agentJson agent
  role := .str role
  segmentIndex := .int segment
  tokens := []
  lossMask := []
  logprobs := []
  completions := []
  routedExperts := .null

/-- The segment index behind an agent's open stream. -/
def nextSegment (s : TrainingStream) : Nat :=
  match s.segmentIndex with
  | .int n => n.toNat + 1
  | _ => 0

/-- The role registered for an agent. -/
def roleOf (roles : Roles) (agent : Option String) : Option String := roles.lookup agent

/-- The body of the loop over the turns. -/
def addTurn (sessionId : Json) (roles : Roles) (allowSegments : Bool) (blobs : Fields)
    (st : StreamsState) (turn : Fields) : Except String StreamsState :=
  match agentOf (turn.get "agent_id") with
  | none => .error "Unregistered recorded agent"
  | some agent =>
    match roleOf roles agent with
    | none => .error ("Unregistered recorded agent: " ++ agent.elim "None" quoted)
    | some role =>
      match (st.current.get? agent).bind fun i => st.streams[i]?.map fun s => (i, s) with
      | none =>
        .ok { streams := st.streams ++ [extendStream turn (openStream sessionId agent role 0)]
              current := st.current.set agent st.streams.length }
      | some (i, s) =>
        if (turn.getD "new_conversation" (.bool false)).truthy then
          if !allowSegments || (agent.elim false fun a => blobs.has a) then
            .error "Conversation reset requires separate segments without routing capture"
          else
            .ok { streams := st.streams ++
                    [extendStream turn (openStream sessionId agent role (nextSegment s))]
                  current := st.current.set agent st.streams.length }
        else .ok { st with streams := st.streams.set i (extendStream turn s) }

/-- The loop over the turns. -/
def addTurns (sessionId : Json) (roles : Roles) (allowSegments : Bool) (blobs : Fields) :
    StreamsState → List Json → Except String StreamsState
  | st, [] => .ok st
  | st, .obj turn :: rest => do
    let st ← addTurn sessionId roles allowSegments blobs st turn
    addTurns sessionId roles allowSegments blobs st rest
  | _, _ :: _ => .error "turn must be an object"

/-- A stream with its agent's capture attached. -/
def attachBlob (blobs : Fields) (s : TrainingStream) : TrainingStream :=
  { s with routedExperts := match s.agentId with
    | .str a => blobs.get a
    | _ => .null }

/-- The last loop: every stream gets its capture and is validated. -/
def finishStreams (requireRoutedExperts : Bool) (blobs : Fields) :
    List TrainingStream → Except String (List TrainingStream)
  | [] => .ok []
  | s :: rest => do
    let s := attachBlob blobs s
    s.validate requireRoutedExperts
    let rest ← finishStreams requireRoutedExperts blobs rest
    return s :: rest

/-- `record_to_streams`. -/
def recordToStreams (record : Json) (roles : Roles) (allowSegments requireRoutedExperts : Bool) :
    Except String (List TrainingStream) := do
  checkRoles roles
  validateRecordStructure none true requireRoutedExperts record
  match record with
  | .obj fields =>
    let sessionId := Fields.get fields "session_id"
    checkName sessionId "session_id"
    let blobs := match Fields.getD fields "routed_experts" (.obj []) with
      | .obj blobs => blobs
      | _ => []
    let st ← addTurns sessionId roles allowSegments blobs .empty (itemsOf (Fields.get fields "turns"))
    finishStreams requireRoutedExperts blobs st.streams
  | _ => .error "Session record must contain a turns list"

end RolloutProxy
