/-
  File:      RolloutProxy/Training/Collector.lean
  Subject:   THE POLICY CHECK AT COLLECTION: `validate_session_record` (validation.py), on the raw
             record a collector gets.

  A record that is a session model is checked as its dump; here it is a raw object throughout.
-/
import RolloutProxy.Training.RecordValidation
import RolloutProxy.Engine.Sampling

namespace RolloutProxy

/-! ## 1. What is expected -/

/-- The sampling policy of `expected_sampling`, where one is given. -/
def collectorSampling (py : PyText) : Json → Except String (Option Fields)
  | .null => .ok none
  | .obj [] => .error "expected_sampling must be a nonempty mapping of distribution parameters"
  | .obj fields => do
    let sampling ← validateSamplingOverrides py "expected_sampling" (.obj fields)
    return some sampling
  | _ => .error "expected_sampling must be a nonempty mapping of distribution parameters"

def collectorVersion : Json → Except String Unit
  | .null => .ok ()
  | .str s => guardE (s != "") "expected_weight_version must be a nonempty string or None"
  | _ => .error "expected_weight_version must be a nonempty string or None"

/-! ## 2. Turns -/

/-- The parameters of a policy, compared one by one. -/
def checkPolicy (py : PyText) (place : String) (actual : Fields) : Fields → Except String Unit
  | [] => .ok ()
  | (key, expected) :: rest => do
    guardE (finite (Fields.get actual key) && (Fields.get actual key).pyEq expected)
      (place ++ ": mismatched or missing sampling policy parameter " ++ quoted key ++
        ": expected " ++ py.repr expected ++ ", got " ++ py.repr (Fields.get actual key))
    checkPolicy py place actual rest

/-- The loop: each parameter is a finite number and the expected one. -/
theorem checkPolicy_iff {py : PyText} {place : String} {actual : Fields} : ∀ {l : Fields},
    checkPolicy py place actual l = .ok () ↔ ∀ e ∈ l,
      finite (Fields.get actual e.1) = true ∧ (Fields.get actual e.1).pyEq e.2 = true
  | [] => ⟨fun _ => nofun, fun _ => rfl⟩
  | (key, expected) :: rest => by
      rw [List.forall_mem_cons]
      unfold checkPolicy
      refine ⟨fun h => ?_, fun ⟨hhead, hrest⟩ => ?_⟩
      · obtain ⟨_, hc, h⟩ := bind_ok h
        rw [guardE_ok, Bool.and_eq_true] at hc
        exact ⟨hc, checkPolicy_iff.mp h⟩
      · simp only [hhead.1, hhead.2, Bool.and_self, guardE, if_true, ok_bind,
          checkPolicy_iff.mpr hrest]

/-- The sampling and the version of a sampled turn. -/
def checkSampled (py : PyText) (place : String) (sampling : Option Fields) (version : Json)
    (turn : Fields) : Except String Unit := do
  match sampling with
  | none => pure ()
  | some sampling =>
    match Fields.get turn "sampling_params" with
    | .obj actual => checkPolicy py place actual sampling
    | _ => .error (place ++ ": missing sampling policy metadata")
  guardE (version.isNull || (Fields.get turn "weight_version").pyEq version)
    (place ++ ": stale, mixed or missing weight version: expected " ++ py.repr version ++ ", got " ++
      py.repr (Fields.get turn "weight_version"))

/-- The body of the loop for turn `index`. -/
def collectTurn (py : PyText) (sid : Json) (selected : Option (List (Option String)))
    (sampling : Option Fields) (version : Json) (index : Nat) : Json → Except String Unit
  | .obj turn =>
    match agentOf (Fields.get turn "agent_id") with
    | none =>
      .error ("Session " ++ py.repr sid ++ ": turn " ++ toString index ++ " has an invalid agent_id")
    | some agent =>
      if !isSelected selected agent then .ok () else
      let place := "Session " ++ py.repr sid ++ ", agent " ++ py.repr (Fields.get turn "agent_id") ++
        ", turn " ++ toString index
      match Fields.get turn "completion_token_ids" with
      | .arr [] => .ok ()
      | .arr _ => checkSampled py place sampling version turn
      | _ => .error (place ++ ": completion_token_ids must be a list")
  | _ => .error ("Session " ++ py.repr sid ++ ": turn " ++ toString index ++ " must be an object")

def collectTurns (py : PyText) (sid : Json) (selected : Option (List (Option String)))
    (sampling : Option Fields) (version : Json) : Nat → List Json → Except String Unit
  | _, [] => .ok ()
  | i, turn :: rest => do
    collectTurn py sid selected sampling version i turn
    collectTurns py sid selected sampling version (i + 1) rest

/-- `validate_session_record`. -/
def validateSessionRecord (py : PyText) (record expectedSampling expectedWeightVersion : Json)
    (trainedAgentIds : Option (List (Option String)))
    (strict requireLogprobs requireRoutedExperts : Bool) : Except String Unit := do
  let sampling ← collectorSampling py expectedSampling
  collectorVersion expectedWeightVersion
  if strict || requireLogprobs || requireRoutedExperts then
    validateRecordStructure trainedAgentIds requireLogprobs requireRoutedExperts record
  match record with
  | .obj fields =>
    match Fields.get fields "turns" with
    | .arr turns =>
      collectTurns py (Fields.get fields "session_id") trainedAgentIds sampling expectedWeightVersion 0
        turns
    | _ => .error ("Session " ++ py.repr (Fields.get fields "session_id") ++ ": turns must be a list")
  | _ => .error "Session record must be a SessionRecord or mapping"

end RolloutProxy
