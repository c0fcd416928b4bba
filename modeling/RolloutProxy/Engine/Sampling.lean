/-
  File:      RolloutProxy/Engine/Sampling.lean
  Subject:   THE SAMPLING PARAMETERS of a generation: the distribution keys, their checks and the
             temperature floor (model_registry.py), the checks on the other generation parameters
             and on the reasoning effort (request_validation.py).

  A failed check is a `ValueError`, here its text. Python's `str` and `repr` of a decoded value
  appear in some of the texts and in the weight version; they are parameters (`PyText`).
-/
import RolloutProxy.Errors
import RolloutProxy.Json
import RolloutProxy.Lib.Except

namespace RolloutProxy

/-- Python's `str(value)` and `repr(value)`. -/
structure PyText where
  str : Json → String
  repr : Json → String

/-- `SAMPLING_PARAM_KEYS`. -/
def samplingParamKeys : List String :=
  ["temperature", "top_p", "top_k", "min_p", "repetition_penalty", "presence_penalty",
    "frequency_penalty"]

/-- `d.update(e)`. -/
def Fields.update (d e : Fields) : Fields := e.foldl (fun d kv => d.set kv.1 kv.2) d

/-- `{k: d[k] for k in SAMPLING_PARAM_KEYS if k in d}`. -/
def samplingOf (d : Fields) : Fields :=
  (samplingParamKeys.filter d.has).map fun k => (k, d.get k)

/-! ## 1. The temperature floor -/

/-- `MIN_TEMPERATURE`: the double nearest to 0.01. -/
def minTemperature : Rat := 5764607523034235 / 576460752303423488

/-- `apply_temperature_floor` on validated parameters. -/
def applyTemperatureFloor (params : Fields) : Fields :=
  match (params.get "temperature").number with
  | some (.finite q) =>
    if q < minTemperature then params.set "temperature" (.float (.finite minTemperature)) else params
  | _ => params

/-! ## 2. `validate_sampling_overrides` -/

/-- Whether a finite number is allowed under a distribution key, and the text that says so. -/
def samplingRange (key : String) (value : Json) (q : Rat) : Bool × String :=
  if key = "top_k" then
    (match value with
      | .int n => n == -1 || 1 ≤ n
      | _ => false, "an integer equal to -1 or greater than zero")
  else if key = "top_p" then (0 < q && q ≤ 1, "in (0, 1]")
  else if key = "min_p" then (0 ≤ q && q ≤ 1, "in [0, 1]")
  else if key = "temperature" then (0 ≤ q, "nonnegative")
  else if key = "repetition_penalty" then (0 < q, "greater than zero")
  else (-2 ≤ q && q ≤ 2, "in [-2, 2]")

/-- One turn of the loop over the overrides. -/
def validateSamplingValue (py : PyText) (place key : String) (value : Json) :
    Except String Unit :=
  match value with
  | .int _ | .float _ =>
    match value.number with
    | some (.finite q) =>
      if !finite value then .error (place ++ ": " ++ key ++ " must be finite") else
      if (samplingRange key value q).1 then .ok ()
      else .error (place ++ ": " ++ key ++ " must be " ++ (samplingRange key value q).2)
    | _ => .error (place ++ ": " ++ key ++ " must be finite")
  | _ => .error (place ++ ": sampling override " ++ quoted key ++ " must be a number, got " ++
      py.repr value)

def validateSamplingValues (py : PyText) (place : String) : Fields → Except String Unit
  | [] => .ok ()
  | (key, value) :: rest => do
    validateSamplingValue py place key value
    validateSamplingValues py place rest

/-- `validate_sampling_overrides`: the overrides in the order of the keys. -/
def validateSamplingOverrides (py : PyText) (place : String) : Json → Except String Fields
  | .obj overrides =>
    match (overrides.map Prod.fst).filter (!samplingParamKeys.contains ·) with
    | [] => do
      validateSamplingValues py place overrides
      return samplingOf overrides
    | bad => .error (place ++ ": sampling overrides may only carry the distribution keys (" ++
        joinWith ", " samplingParamKeys ++ "); got " ++ joinWith ", " (bad.mergeSort (· ≤ ·)) ++
        ". max_tokens and stop stay request-owned.")
  | v => .error (place ++ ": sampling overrides must be a mapping of sampling params " ++
      "(e.g. \x7btemperature: 1.0\x7d), got " ++ v.typeName)

/-! ## 3. `validate_generation_parameters` -/

/-- `max_tokens` and `max_completion_tokens`. -/
def validateBudget (key : String) : Json → Except String Unit
  | .null => .ok ()
  | .int n => if 0 < n then .ok () else .error (key ++ " must be a positive integer")
  | _ => .error (key ++ " must be a positive integer")

/-- `type(token) is int and token >= 0`. -/
def isTokenId : Json → Bool
  | .int n => 0 ≤ n
  | _ => false

def validateStopTokenIds : Json → Except String Unit
  | .null => .ok ()
  | .arr ids => guardE (ids.all isTokenId) "stop_token_ids must be a list of nonnegative integers"
  | _ => .error "stop_token_ids must be a list of nonnegative integers"

def validateSeed : Json → Except String Unit
  | .null => .ok ()
  | .int _ => .ok ()
  | _ => .error "seed must be an integer"

/-- A nonempty string. -/
def isStopText : Json → Bool
  | .str s => s != ""
  | _ => false

def validateStop : Json → Except String Unit
  | .null => .ok ()
  | .str s => guardE (isStopText (.str s)) "stop must be a nonempty string or a list of nonempty strings"
  | .arr l => guardE (l.all isStopText) "stop must be a nonempty string or a list of nonempty strings"
  | _ => .error "stop must be a nonempty string or a list of nonempty strings"

/-- `validate_generation_parameters`. -/
def validateGenerationParameters (py : PyText) (params : Fields) : Except String Unit := do
  let _ ← validateSamplingOverrides py "sampling parameters"
    (.obj ((samplingOf params).filter fun kv => !kv.2.isNull))
  validateBudget "max_tokens" (params.get "max_tokens")
  validateBudget "max_completion_tokens" (params.get "max_completion_tokens")
  validateSeed (params.get "seed")
  validateStopTokenIds (params.get "stop_token_ids")
  validateStop (params.get "stop")

/-! ## 4. `validate_reasoning_effort` -/

def reasoningEfforts : List String := ["none", "minimal", "low", "medium", "high", "xhigh", "max"]

/-- `validate_reasoning_effort`: the effort as text, if one is given. -/
def validateReasoningEffort (value : Json) (supported : List String) :
    Except TokenStreamError (Option String) :=
  match value with
  | .null => .ok none
  | .str s =>
    if !reasoningEfforts.contains s then .error .effortUnknown
    else if !supported.isEmpty && !supported.contains s then .error (.effortUnsupported s supported)
    else .ok (some s)
  | _ => .error .effortUnknown

end RolloutProxy
