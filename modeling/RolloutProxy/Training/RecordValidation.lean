/-
  File:      RolloutProxy/Training/RecordValidation.lean
  Subject:   `validate_record_structure` (record_validation.py): the integrity checks on a raw
             record, a decoded JSON object, before anything is read as typed data.

  The loop over the turns carries two dictionaries, the length of each agent's current
  conversation and the number of its conversations (`Tally`); `checkTurn` is its body.
-/
import RolloutProxy.Json
import RolloutProxy.Lib.Base64
import RolloutProxy.Lib.Dict
import RolloutProxy.Lib.Except

namespace RolloutProxy

/-- A list of nonnegative integer token ids. -/
def isTokenIds : Json → Bool
  | .arr items => items.all fun t => match t with
    | .int n => 0 ≤ n
    | _ => false
  | _ => false

/-- `len(value)` of a list. -/
def lengthOf : Json → Nat
  | .arr items => items.length
  | _ => 0

/-- The `agent_id` of a turn: a string or null. -/
def agentOf : Json → Option (Option String)
  | .null => some none
  | .str s => some (some s)
  | _ => none

/-- A list of finite numbers. -/
def isFiniteList : Json → Bool
  | .arr items => items.all finite
  | _ => false

/-- Null, or a mapping with finite numbers only. -/
def isSamplingParams : Json → Bool
  | .null => true
  | .obj fields => fields.all fun e => finite e.2
  | _ => false

/-- What the loop knows of every agent: the length of its current conversation, and how many
    conversations it had. -/
structure Tally where
  lengths : Dict (Option String) Nat
  conversations : Dict (Option String) Nat

def Tally.empty : Tally := ⟨∅, ∅⟩

/-- The length of an agent's current conversation. -/
def Tally.length (t : Tally) (agent : Option String) : Nat := (t.lengths.get? agent).getD 0

/-- An agent's first turn and a reset start a conversation. -/
def Tally.start (t : Tally) (agent : Option String) (reset : Bool) : Tally :=
  if t.lengths.get? agent = none ∨ reset then
    { lengths := t.lengths.set agent 0
      conversations := t.conversations.set agent ((t.conversations.get? agent).getD 0 + 1) }
  else t

/-- `lengths[agent] += n`. -/
def Tally.add (t : Tally) (agent : Option String) (n : Nat) : Tally :=
  { t with lengths := t.lengths.set agent (t.length agent + n) }

/-- Whether the training fields of an agent are required. -/
def isSelected (selected : Option (List (Option String))) (agent : Option String) : Bool :=
  match selected with
  | none => true
  | some l => l.contains agent

/-- The body of the loop for turn `index`. -/
def checkTurn (selected : Option (List (Option String))) (requireLogprobs : Bool) (index : Nat)
    (t : Tally) : Json → Except String Tally
  | .obj turn => do
    match agentOf (Fields.get turn "agent_id") with
    | none => .error ("turn " ++ toString index ++ " has an invalid agent_id")
    | some agent =>
      let required := isSelected selected agent && requireLogprobs
      let prompt := Fields.getD turn "prompt_token_ids" (.arr [])
      let completion := Fields.get turn "completion_token_ids"
      guardE (isTokenIds prompt) "prompt_token_ids must contain nonnegative integer token IDs"
      guardE (isTokenIds completion)
        "completion_token_ids must contain nonnegative integer token IDs"
      match Fields.getD turn "new_conversation" (.bool false) with
      | .bool reset =>
        let t := t.start agent reset
        guardE (!(required && completion.truthy && !prompt.truthy && t.length agent == 0))
          "A training stream requires a leading prompt"
        let t := t.add agent (lengthOf prompt + lengthOf completion)
        let probs := Fields.getD turn "completion_logprobs" (.arr [])
        guardE (isFiniteList probs) "completion_logprobs must contain finite numbers"
        guardE (!((Fields.has turn "completion_logprobs" || required) &&
          lengthOf probs != lengthOf completion)) "Missing or misaligned completion_logprobs"
        guardE (isSamplingParams (Fields.get turn "sampling_params"))
          "sampling_params must be a finite numeric mapping"
        return t
      | _ => .error "new_conversation must be a bool"
  | _ => .error ("turn " ++ toString index ++ " must be an object")

/-- The loop over the turns. -/
def checkTurns (selected : Option (List (Option String))) (requireLogprobs : Bool) :
    Nat → Tally → List Json → Except String Tally
  | _, t, [] => .ok t
  | i, t, turn :: rest => do
    let t ← checkTurn selected requireLogprobs i t turn
    checkTurns selected requireLogprobs (i + 1) t rest

/-- The captures of a record, agent to blob. A decoded JSON object names its agents by texts; a
    stream may have a capture of the agent without an id. -/
abbrev Captures := List (Option String × Json)

/-- One entry of `routed_experts`. -/
def checkBlob (t : Tally) (agent : Option String) : Json → Except String Unit
  | .obj blob =>
    match t.lengths.get? agent with
    | none => .error "Invalid routed_experts agent or blob"
    | some length =>
      match Fields.get blob "rows", Fields.get blob "cols", Fields.getD blob "start" (.int 0) with
      | .int rows, .int cols, .int start =>
        if rows < 0 ∨ cols ≤ 0 ∨ start ≠ 0 ∨
            !(Fields.getD blob "dtype" (.str "uint8")).pyEq (.str "uint8") ∨
            max 0 ((length : Int) - 1) < rows then
          .error "Invalid routed_experts dimensions or coverage"
        else
          match (Fields.get blob "data").asStr.bind (Base64.decode true) with
          | none => .error "Invalid routed_experts base64 data"
          | some decoded =>
            guardE ((decoded.length : Int) == rows * cols)
              "routed_experts byte count does not match dimensions"
      | _, _, _ => .error "Invalid routed_experts dimensions or coverage"
  | _ => .error "Invalid routed_experts agent or blob"

/-- The loop over the blobs. -/
def checkBlobs (t : Tally) : Captures → Except String Unit
  | [] => .ok ()
  | (agent, blob) :: rest => do
    checkBlob t agent blob
    checkBlobs t rest

/-- `blobs[agent]["rows"]`. -/
def blobRows (blobs : Captures) (agent : Option String) : Option Json :=
  match blobs.lookup agent with
  | some (.obj blob) => some (Fields.get blob "rows")
  | _ => none

/-- The coverage each agent's conversation must have. -/
def checkCoverage (selected : Option (List (Option String))) (t : Tally) (blobs : Captures) :
    List (Option String × Nat) → Except String Unit
  | [] => .ok ()
  | (agent, length) :: rest => do
    if isSelected selected agent ∧ length ≠ 0 then
      guardE ((t.conversations.get? agent).getD 0 ≤ 1)
        "Routing across conversation resets requires per-segment capture"
      match blobRows blobs agent with
      | none => .error "Missing or incomplete routed_experts coverage"
      | some rows =>
        guardE (rows.pyEq (.int (max 0 ((length : Int) - 1))))
          "Missing or incomplete routed_experts coverage"
    checkCoverage selected t blobs rest

/-- The checks on the captures, behind the loop over the turns. -/
def checkCaptures (selected : Option (List (Option String))) (requireRoutedExperts : Bool)
    (t : Tally) (blobs : Captures) : Except String Unit := do
  checkBlobs t blobs
  if requireRoutedExperts then checkCoverage selected t blobs t.lengths.entries

/-- The checks on a list of turns and the captures beside it. -/
def validateTurns (selected : Option (List (Option String))) (requireLogprobs : Bool)
    (requireRoutedExperts : Bool) (turns : List Json) (blobs : Captures) : Except String Unit := do
  let t ← checkTurns selected requireLogprobs 0 .empty turns
  checkCaptures selected requireRoutedExperts t blobs

/-- `validate_record_structure`. -/
def validateRecordStructure (selected : Option (List (Option String))) (requireLogprobs : Bool)
    (requireRoutedExperts : Bool) : Json → Except String Unit
  | .obj record =>
    match Fields.get record "turns" with
    | .arr turns => do
      let t ← checkTurns selected requireLogprobs 0 .empty turns
      match Fields.getD record "routed_experts" (.obj []) with
      | .obj blobs =>
        checkCaptures selected requireRoutedExperts t (blobs.map fun e => (some e.1, e.2))
      | _ => .error "routed_experts must be a mapping"
    | _ => .error "Session record must contain a turns list"
  | _ => .error "Session record must contain a turns list"

end RolloutProxy
