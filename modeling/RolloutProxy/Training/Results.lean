/-
  File:      RolloutProxy/Training/Results.lean
  Subject:   THE CONTRACT CHECK AT TRAINING: `validate_training_results` (training.py), on the
             trial results of an allocation.

  The loops carry what is allocated (`Allocation`), the slots that were seen, and for one result
  the identities and segments of its streams (`Identities`).
-/
import RolloutProxy.Training.Streams

namespace RolloutProxy

/-- One terminal result of an allocated task slot. -/
structure TrialResult where
  taskId : Json
  slot : Json
  attempt : Json
  sessionId : Json
  streams : List TrainingStream
  scores : Json
  error : Json
  cleanupError : Json

/-! ## 1. Allocations -/

/-- The attempts of each slot, and all session ids so far. -/
structure Allocation where
  expected : Dict (String × Int) (List String)
  sessions : List String

/-- The session ids of a slot's attempts. -/
def allocateAttempts : List String → List Json → Except String (List String × List String)
  | sessions, [] => .ok ([], sessions)
  | sessions, sid :: rest => do
    checkName sid "allocated session_id"
    let s := sid.asStr.getD ""
    guardE (!sessions.contains s) "Duplicate allocated session ID"
    let (attempts, sessions) ← allocateAttempts (s :: sessions) rest
    return (s :: attempts, sessions)

def allocateSlots (task : String) : Allocation → Nat → List Json → Except String Allocation
  | a, _, [] => .ok a
  | a, slot, attempts :: rest =>
    match attempts with
    | .arr (sid :: sids) => do
      let (ids, sessions) ← allocateAttempts a.sessions (sid :: sids)
      allocateSlots task ⟨a.expected.set (task, (slot : Int)) ids, sessions⟩ (slot + 1) rest
    | _ => .error "Each slot requires allocated attempts"

def allocateTasks : Allocation → Fields → Except String Allocation
  | a, [] => .ok a
  | a, (task, slots) :: rest => do
    checkName (.str task) "task_id"
    match slots with
    | .arr (slot :: more) => do
      let a ← allocateSlots task a 0 (slot :: more)
      allocateTasks a rest
    | _ => .error "Each task requires allocated slots"

/-! ## 2. Streams -/

/-- What every sampled completion of a trained stream must carry. -/
structure Expectation where
  /-- null, or a nonempty mapping -/
  sampling : Json
  /-- null, or a text -/
  version : Json

/-- `any(params.get(k) != v for k, v in expected_sampling.items())`, or no parameters. -/
def mismatched (params : Json) (sampling : Fields) : Bool :=
  match params with
  | .obj params => sampling.any fun e => !(Fields.get params e.1).pyEq e.2
  | _ => true

def checkCompletion (e : Expectation) (c : TrainingCompletion) : Except String Unit :=
  if c.start.asInt = c.stop.asInt then .ok () else do
  guardE (e.version.isNull || c.weightVersion.pyEq e.version)
    "Stale, mixed or missing weight version"
  match e.sampling with
  | .obj sampling =>
    guardE (!mismatched c.samplingParams sampling) "Mismatched or missing sampling policy"
  | _ => .ok ()

def checkCompletions (e : Expectation) : List TrainingCompletion → Except String Unit
  | [] => .ok ()
  | c :: rest => do
    checkCompletion e c
    checkCompletions e rest

/-- The identities and the segment indices of the streams of a result. -/
structure Identities where
  seen : List (Option (Option String) × Option Int)
  segments : Dict (Option (Option String)) (List (Option Int))

/-- `(stream.agent_id, stream.segment_index)`. -/
def TrainingStream.identity (s : TrainingStream) : Option (Option String) × Option Int :=
  (agentOf s.agentId, s.segmentIndex.asInt)

/-- The stream's role is selected. -/
def TrainingStream.trained (s : TrainingStream) (selected : List String) : Bool :=
  match s.role with
  | .str role => selected.contains role
  | _ => false

/-- The body of the loop over the streams. -/
def checkStream (roles : Roles) (selected : List String) (e : Expectation)
    (requireRoutedExperts : Bool) (sid : Json) (ids : Identities) (s : TrainingStream) :
    Except String Identities := do
  s.validate (requireRoutedExperts && s.trained selected)
  guardE (s.sessionId.asStr == sid.asStr && !ids.seen.contains s.identity)
    "Wrong-session or duplicate stream identity"
  let agent := s.identity.1
  let ids : Identities :=
    { seen := s.identity :: ids.seen
      segments := ids.segments.set agent
        ((ids.segments.get? agent).getD [] ++ [s.identity.2]) }
  guardE ((agent.bind (roleOf roles)).isSome && agent.bind (roleOf roles) == s.role.asStr)
    "Unregistered agent or mismatched role"
  if s.trained selected then checkCompletions e s.completions
  return ids

def checkStreams (roles : Roles) (selected : List String) (e : Expectation)
    (requireRoutedExperts : Bool) (sid : Json) :
    Identities → List TrainingStream → Except String Identities
  | ids, [] => .ok ids
  | ids, s :: rest => do
    let ids ← checkStream roles selected e requireRoutedExperts sid ids s
    checkStreams roles selected e requireRoutedExperts sid ids rest

/-- `sorted(indices) == list(range(len(indices)))`. -/
def isRange (indices : List (Option Int)) : Bool :=
  (indices.map fun i => i.getD 0).mergeSort (· ≤ ·) ==
    (List.range indices.length).map Int.ofNat

/-! ## 3. Results -/

def isErrorText : Json → Bool
  | .null => true
  | .str _ => true
  | _ => false

def isScores : Json → Bool
  | .obj scores => scores.all fun e => finite e.2
  | _ => false

/-- The body of the loop over the results; `seen` are the slots so far. -/
def checkTrial (a : Allocation) (roles : Roles) (selected : List String) (e : Expectation)
    (requireRoutedExperts : Bool) (seen : List (String × Int)) (r : TrialResult) :
    Except String (List (String × Int)) := do
  checkName r.taskId "task_id"
  checkName r.sessionId "session_id"
  match r.slot, r.attempt with
  | .int slot, .int attempt =>
    guardE (0 ≤ attempt) "Slot and attempt must be nonnegative integers"
    let key := (r.taskId.asStr.getD "", slot)
    match a.expected.get? key with
    | none => .error "Unallocated or duplicate trial slot"
    | some attempts =>
      guardE (!seen.contains key) "Unallocated or duplicate trial slot"
      guardE (attempts[attempt.toNat]?.isSome && attempts[attempt.toNat]? == r.sessionId.asStr)
        "Trial returned an unallocated attempt/session"
      guardE (isScores r.scores) "Scores must be a finite numeric mapping"
      guardE (isErrorText r.error && isErrorText r.cleanupError)
        "Trial errors must be strings or None"
      let ids ← checkStreams roles selected e requireRoutedExperts r.sessionId ⟨[], ∅⟩ r.streams
      guardE (ids.segments.entries.all fun entry => isRange entry.2) "Missing conversation segment"
      return key :: seen
  | _, _ => .error "Slot and attempt must be nonnegative integers"

def checkTrials (a : Allocation) (roles : Roles) (selected : List String) (e : Expectation)
    (requireRoutedExperts : Bool) :
    List (String × Int) → List TrialResult → Except String (List (String × Int))
  | seen, [] => .ok seen
  | seen, r :: rest => do
    let seen ← checkTrial a roles selected e requireRoutedExperts seen r
    checkTrials a roles selected e requireRoutedExperts seen rest

/-- The roles whose streams are trained on. -/
def trainedSelection (roles : Roles) : Option (List String) → Except String (List String)
  | none => .ok (roles.map Prod.snd)
  | some trained => do
    guardE (trained.all (roles.map Prod.snd).contains) "trained_roles must contain registered roles"
    return trained

/-- `expected_sampling` is absent, or a nonempty mapping of finite numbers. -/
def isExpectedSampling : Json → Bool
  | .null => true
  | .obj fields => !fields.isEmpty && fields.all fun e => e.1 != "" && finite e.2
  | _ => false

/-- `validate_training_results`. -/
def validateTrainingResults (results : List TrialResult) (allocations : Json) (roles : Roles)
    (trainedRoles : Option (List String)) (e : Expectation) (requireRoutedExperts : Bool) :
    Except String Unit := do
  checkRoles roles
  let selected ← trainedSelection roles trainedRoles
  guardE (isExpectedSampling e.sampling)
    "expected_sampling must be a nonempty finite numeric mapping"
  checkOptionalName e.version "expected_weight_version"
  match allocations with
  | .obj tasks =>
    let a ← allocateTasks ⟨∅, []⟩ tasks
    let seen ← checkTrials a roles selected e requireRoutedExperts [] results
    guardE (a.expected.keys.all seen.contains) "Missing allocated trial results"
  | _ => .error "Expected an allocation mapping and a sequence of TrialResult objects"

end RolloutProxy
