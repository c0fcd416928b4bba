/-
  File:      RolloutProxy/Engine/Dialects.lean
  Subject:   THE THREE ENGINE DIALECTS: the request a transport posts and how it reads the answer.
             `_sglang_generate` (rollout_sglang.py), `_vllm_generate` (rollout_vllm.py) and the
             completions branch of `DirectRolloutProvider._call_engine` (rollout_provider.py).

  A body is any decoded JSON value, so each access of the source can raise; `dictOf`,
  `subscript` and `firstOf` are `value.get`, `value["key"]` and `value[0]`.
-/
import RolloutProxy.Engine.Sampling
import RolloutProxy.Engine.Routing

namespace RolloutProxy

/-! ## 1. Reading a decoded value -/

/-- `value.get(...)`: only an object has fields to read. -/
def dictOf : Json → Except PyError Fields
  | .obj fields => .ok fields
  | v => .error (.other (quoted v.typeName ++ " object has no attribute 'get'"))

/-- `value[key]` for a text key. -/
def subscript (value : Json) (key : String) : Except PyError Json :=
  match value with
  | .obj fields => if Fields.has fields key then .ok (Fields.get fields key)
      else .error (.other (quoted key))
  | .str _ => .error (.other "string indices must be integers, not 'str'")
  | .arr _ => .error (.other "list indices must be integers or slices, not str")
  | v => .error (.other (quoted v.typeName ++ " object is not subscriptable"))

/-- `value[0]`. -/
def firstOf : Json → Except PyError Json
  | .arr (v :: _) => .ok v
  | .arr [] => .error (.other "list index out of range")
  | .str s =>
    match s.toList with
    | c :: _ => .ok (.str (String.singleton c))
    | [] => .error (.other "string index out of range")
  | .obj _ => .error (.other "0")
  | v => .error (.other (quoted v.typeName ++ " object is not subscriptable"))

/-- `value or other`. -/
def orElse (value other : Json) : Json := if value.truthy then value else other

/-- An `EngineError` of a session. -/
def engineError {α : Type} (sid message : String) : Except PyError α :=
  .error (.engine ("Session " ++ sid ++ ": " ++ message))

/-- `_finite_logprob`. -/
def finiteLogprob (sid : String) (value : Json) : Except PyError PyFloat :=
  match value with
  | .int n =>
    match floatOfInt n with
    | some x => .ok x
    | none => engineError sid "the rollout engine returned a non-finite logprob"
  | .float x =>
    if x.isFinite then .ok x
    else engineError sid "the rollout engine returned a non-finite logprob"
  | _ => engineError sid "the rollout engine returned an invalid logprob"

/-- `_engine_meta`: the weight version, if the engine names one. -/
def engineMetaOf (py : PyText) (metaInfo : Fields) : EngineMeta :=
  match metaInfo.get "weight_version" with
  | .null => .empty
  | v => { EngineMeta.empty with weightVersion := some (py.str v) }

/-- What a transport returns: the tokens, their logprobs, the stop reason and the metadata. -/
structure EngineResult where
  tokenIds : Json
  logProbs : Json
  stopReason : Json
  engineMeta : EngineMeta

/-- A result with plain ints and floats. -/
def EngineResult.ofLists (ids : List Int) (logProbs : List PyFloat) (stopReason : Json)
    (engineMeta : EngineMeta) : EngineResult :=
  ⟨.arr (ids.map .int), .arr (logProbs.map .float), stopReason, engineMeta⟩

/-- The ints of a list that has been checked. -/
def intsOf (l : List Json) : List Int := l.filterMap Json.asInt

/-- What every dialect is called with. -/
structure EngineCall where
  promptIds : List Int
  params : Fields
  sid : String
  capture : Bool
  prior : Option Prior

/-- `d.pop(key)`, without the value. -/
def Fields.erase (d : Fields) (key : String) : Fields := d.filter fun kv => kv.1 ≠ key

/-- `{k: v for k, v in d.items() if v is not None}`. -/
def Fields.present (d : Fields) : Fields := d.filter fun kv => !kv.2.isNull

/-! ## 2. SGLang `/generate` -/

/-- The sampling parameters in SGLang's words. -/
def sglangParams (params : Fields) : Fields :=
  let budget := params.get "max_tokens"
  let params := (params.erase "max_tokens").set "max_new_tokens" budget
  let params := if params.has "seed" then
      (params.erase "seed").set "sampling_seed" (params.get "seed") else params
  (params.erase "logprobs").present

/-- `return_logprob`. -/
def EngineCall.returnLogprob (call : EngineCall) : Bool := (call.params.get "logprobs").truthy

/-- The body posted to `/generate`. -/
def sglangBody (call : EngineCall) : Json :=
  .obj ([("input_ids", .arr (call.promptIds.map .int)),
    ("sampling_params", .obj (sglangParams call.params)),
    ("return_logprob", .bool call.returnLogprob)] ++
    (if call.capture then
      ("return_routed_experts", .bool true) ::
        (if 0 < Prior.start call.prior then
          [("routed_experts_start_len", .int (Prior.start call.prior))] else [])
    else []))

/-- `finish_reason["type"] if finish_reason else None`. -/
def sglangStopReason (metaInfo : Fields) : Except PyError Json :=
  let reason := metaInfo.get "finish_reason"
  if reason.truthy then subscript reason "type" else .ok .null

/-- `output_ids`, or no ids where the field is missing. -/
def sglangOutputIds (sid : String) (output : Fields) : Except PyError (List Int) :=
  match output.get "output_ids" with
  | .null => .ok []
  | .arr ids => if ids.all isTokenId then .ok (intsOf ids)
      else engineError sid "SGLang returned invalid output_ids"
  | _ => engineError sid "SGLang returned invalid output_ids"

/-- One `[logprob, token_id, …]` entry; a logprob that was not asked for is not read. -/
def sglangEntry (sid : String) (returnLogprob : Bool) (index : Nat) (entry : Json) :
    Except PyError (Int × PyFloat) :=
  let invalid := engineError sid ("SGLang returned an invalid logprob entry at position " ++
    toString index)
  match entry with
  | .arr (lp :: .int n :: _) =>
    if n < 0 then invalid
    else if returnLogprob then
      match lp with
      | .int _ | .float _ => (finiteLogprob sid lp).map (n, ·)
      | _ => invalid
    else .ok (n, .nan)
  | _ => invalid

def sglangEntries (sid : String) (returnLogprob : Bool) :
    Nat → List Json → Except PyError (List (Int × PyFloat))
  | _, [] => .ok []
  | i, entry :: rest => do
    let p ← sglangEntry sid returnLogprob i entry
    let ps ← sglangEntries sid returnLogprob (i + 1) rest
    return p :: ps

/-- The pairs read from `output_token_logprobs`, where the source reads them. -/
def sglangPairs (sid : String) (returnLogprob : Bool) (ids : List Int) (entries : Json) :
    Except PyError (List (Int × PyFloat)) :=
  if returnLogprob || (ids.isEmpty && entries.truthy) then
    match entries with
    | .arr l => sglangEntries sid returnLogprob 0 l
    | _ => engineError sid "SGLang returned invalid output_token_logprobs"
  else .ok []

/-- The sampled ids: without `output_ids` the triples retain them. -/
def sglangIds (outputIds : List Int) (entries : Json) (pairs : List (Int × PyFloat)) : List Int :=
  if outputIds.isEmpty && entries.truthy then pairs.map Prod.fst else outputIds

/-- `_sglang_generate`, from the decoded body on. -/
def sglangRead (py : PyText) (call : EngineCall) (body : Json) : Except PyError EngineResult := do
  let output ← dictOf body
  let metaInfo ← dictOf (Fields.getD output "meta_info" (.obj []))
  let stopReason ← sglangStopReason metaInfo
  let engineMeta := engineMetaOf py metaInfo
  let entries := orElse (metaInfo.get "output_token_logprobs") (.arr [])
  let outputIds ← sglangOutputIds call.sid output
  let pairs ← sglangPairs call.sid call.returnLogprob outputIds entries
  let ids := sglangIds outputIds entries pairs
  let logProbs := if call.returnLogprob then pairs.map Prod.snd else []
  if call.returnLogprob && pairs.map Prod.fst != ids then
    return .ofLists [] [] stopReason engineMeta
  if call.capture then
    let blob ← packRoutedExperts metaInfo call.promptIds.length ids.length call.sid call.prior
    return .ofLists ids logProbs stopReason { engineMeta with routedExperts := some blob }
  return .ofLists ids logProbs stopReason engineMeta

/-! ## 3. vLLM `/inference/v1/generate` -/

/-- The body posted to `/inference/v1/generate`. -/
def vllmBody (call : EngineCall) : Json :=
  let params := call.params.present.set "logprobs" (.int 1)
  let params := if (params.get "stop").truthy then
      params.set "include_stop_str_in_output" (.bool true) else params
  let params := if call.capture then
      params.set "routed_experts_prompt_start" (.int (Prior.start call.prior)) else params
  .obj [("token_ids", .arr (call.promptIds.map .int)), ("sampling_params", .obj params)]

/-- The single choice of the answer. -/
def vllmChoice (sid : String) (body : Json) : Except PyError (Fields × Fields) :=
  match body with
  | .obj output =>
    match Fields.get output "choices" with
    | .arr [.obj choice] => .ok (output, choice)
    | _ => engineError sid "vLLM must return exactly one generation choice"
  | _ => engineError sid "vLLM must return exactly one generation choice"

/-- The finish reason as sent, as text or in an object; `cancelled` is an abort. -/
def vllmStopReason (choice : Fields) : Json :=
  let reason := match choice.get "finish_reason" with
    | .obj r => Fields.get r "type"
    | r => r
  if reason.pyEq (.str "cancelled") then .str "abort" else reason

def vllmTokenIds (sid : String) (choice : Fields) : Except PyError (List Int) :=
  match choice.get "token_ids" with
  | .arr ids => if ids.all isTokenId then .ok (intsOf ids)
      else engineError sid "vLLM returned invalid token_ids"
  | _ => engineError sid "vLLM returned invalid token_ids"

/-- One turn of the loop over the version spans. -/
def vllmSpan (count : Nat) (covered : Int) : Json → Option (Int × String)
  | .obj span =>
    match Fields.get span "start", Fields.get span "end", Fields.get span "version" with
    | .int s, .int e, .str version =>
      if s = covered ∧ covered < e ∧ e ≤ count ∧ version ≠ "" then some (e, version) else none
    | _, _, _ => none
  | _ => none

/-- The end of the covered tokens and the versions named. -/
def vllmSpans (count : Nat) : Int → List String → List Json → Option (Int × List String)
  | covered, versions, [] => some (covered, versions.eraseDups)
  | covered, versions, span :: rest =>
    match vllmSpan count covered span with
    | none => none
    | some (e, version) => vllmSpans count e (versions ++ [version]) rest

/-- `_weight_version`. -/
def vllmWeightVersion (py : PyText) (output choice : Fields) (count : Nat) :
    Except PyError EngineMeta :=
  let engineMeta := engineMetaOf py output
  match choice.get "weight_versions" with
  | .null => .ok engineMeta
  | .arr spans =>
    match vllmSpans count 0 [] spans with
    | none => .error (.engine "vLLM returned invalid weight-version token coverage")
    | some (covered, versions) =>
      if covered ≠ count ∨ 1 < versions.length then
        .error (.engine "vLLM returned missing or mixed policy versions") else
      match versions with
      | [] => .ok engineMeta
      | version :: _ =>
        if engineMeta.weightVersion.getD version ≠ version then
          .error (.engine "vLLM returned conflicting policy versions")
        else .ok { engineMeta with weightVersion := some version }
  | _ => .error (.engine "vLLM weight_versions must be a list of token spans")

/-- Whether an entry names the token it stands beside. -/
def vllmAligned (token : Int) (entry : Fields) : Bool :=
  if entry.has "token_id" then
    match entry.get "token_id" with
    | .int n => n == token
    | _ => false
  else (entry.get "token").pyEq (.str ("token_id:" ++ pyStr token))

/-- One token with its logprob entry. -/
def vllmLogprob (sid : String) (token : Int) (entry : Json) : Except PyError PyFloat :=
  match entry with
  | .obj fields =>
    match Fields.get fields "logprob" with
    | .int _ | .float _ =>
      if vllmAligned token fields then finiteLogprob sid (Fields.get fields "logprob")
      else engineError sid "vLLM returned an invalid token/logprob pair"
    | _ => engineError sid "vLLM returned an invalid token/logprob pair"
  | _ => engineError sid "vLLM returned an invalid token/logprob pair"

def vllmLogprobs (sid : String) : List Int → List Json → Except PyError (List PyFloat)
  | token :: tokens, entry :: entries => do
    let lp ← vllmLogprob sid token entry
    let lps ← vllmLogprobs sid tokens entries
    return lp :: lps
  | _, _ => .ok []

/-- `logprobs["content"]`, as long as the tokens. -/
def vllmContent (sid : String) (choice : Fields) (count : Nat) : Except PyError (List Json) :=
  let content := match choice.get "logprobs" with
    | .obj l => Fields.get l "content"
    | _ => .null
  match content with
  | .arr entries => if entries.length = count then .ok entries
      else engineError sid "vLLM logprobs do not line up with token_ids"
  | _ => engineError sid "vLLM logprobs do not line up with token_ids"

/-- `usage.completion_tokens`, where the answer has one. -/
def vllmUsage (sid : String) (output : Fields) (count : Nat) : Except PyError Unit :=
  match output.get "usage" with
  | .null => .ok ()
  | .obj usage =>
    match Fields.get usage "completion_tokens" with
    | .null => .ok ()
    | .int n => if n = count then .ok ()
        else engineError sid "vLLM completion_tokens does not match token_ids"
    | _ => engineError sid "vLLM completion_tokens does not match token_ids"
  | _ => engineError sid "vLLM returned invalid usage"

/-- `_vllm_generate`, from the decoded body on. -/
def vllmRead (py : PyText) (npLoad : NpLoad) (call : EngineCall) (body : Json) :
    Except PyError EngineResult := do
  let (output, choice) ← vllmChoice call.sid body
  let stopReason := vllmStopReason choice
  if stopReason.pyEq (.str "abort") then
    return .ofLists [] [] (.str "abort") (engineMetaOf py output)
  if !(stopReason.isNull || stopReason.pyEq (.str "stop") || stopReason.pyEq (.str "length")) then
    engineError call.sid ("unknown vLLM finish_reason " ++ py.repr stopReason)
  let ids ← vllmTokenIds call.sid choice
  let engineMeta ← vllmWeightVersion py output choice ids.length
  let entries ← vllmContent call.sid choice ids.length
  let logProbs ← vllmLogprobs call.sid ids entries
  vllmUsage call.sid output ids.length
  if call.capture then
    let blob ← packVllmRoutedExperts npLoad choice call.promptIds.length ids.length call.sid call.prior
    return .ofLists ids logProbs stopReason { engineMeta with routedExperts := some blob }
  return .ofLists ids logProbs stopReason engineMeta

/-! ## 4. vLLM `/v1/completions` -/

def defaultMaxTokens : Int := 65536

/-- The payload posted to `/v1/completions`. -/
def completionsBody (servedModel : String) (call : EngineCall) : Json :=
  let payload : Fields := [("model", .str servedModel),
    ("prompt", .arr (call.promptIds.map .int)),
    ("max_tokens", Fields.getD call.params "max_tokens" (.int defaultMaxTokens)),
    ("logprobs", if call.returnLogprob then .int 0 else .null),
    ("return_tokens_as_token_ids", .bool true)]
  .obj ((samplingParamKeys ++ ["stop", "seed", "stop_token_ids"]).foldl (fun (d : Fields) key =>
    if (call.params.get key).isNull then d else d.set key (call.params.get key)) payload)

/-- The value of a text of decimal digits. -/
def digitsValue (l : List Char) : Nat := l.foldl (fun n c => 10 * n + (c.toNat - 48)) 0

/-- The id in `"token_id:<id>"`: ASCII digits, as many as `int(text)` accepts. -/
def completionsTokenId (token : String) : Option (Except PyError Int) :=
  let digits := token.toList.drop 9
  if "token_id:".toList.isPrefixOf token.toList ∧ digits ≠ [] ∧
      digits.all (fun c => 48 ≤ c.toNat && c.toNat ≤ 57) then
    some (if digits.length ≤ 4300 then .ok (digitsValue digits)
      else .error (.other "Exceeds the limit (4300 digits) for integer string conversion"))
  else none

/-- One raw pair. -/
def completionsPair (sid : String) (index : Nat) (token lp : Json) :
    Except PyError (Int × PyFloat) :=
  let invalid := engineError sid ("vLLM returned an invalid token/logprob pair at position " ++
    toString index)
  match token, lp with
  | .str s, .int _ | .str s, .float _ =>
    match completionsTokenId s with
    | some id => do
      let n ← id
      let x ← finiteLogprob sid lp
      return (n, x)
    | none => invalid
  | _, _ => invalid

def completionsPairs (sid : String) :
    Nat → List Json → List Json → Except PyError (List (Int × PyFloat))
  | i, token :: tokens, lp :: lps => do
    let p ← completionsPair sid i token lp
    let ps ← completionsPairs sid (i + 1) tokens lps
    return p :: ps
  | _, _, _ => .ok []

/-- The raw pairs of a choice's logprobs. -/
def completionsRaw (sid : String) (logprobs : Fields) : Except PyError (List (Int × PyFloat)) :=
  match orElse (logprobs.get "tokens") (.arr []), orElse (logprobs.get "token_logprobs") (.arr []) with
  | .arr tokens, .arr lps =>
    if tokens.length = lps.length then completionsPairs sid 0 tokens lps
    else engineError sid "vLLM returned misaligned tokens and token_logprobs"
  | _, _ => engineError sid "vLLM returned misaligned tokens and token_logprobs"

/-- The completions branch of `_call_engine`, from the decoded body on. -/
def completionsRead (call : EngineCall) (body : Json) : Except PyError EngineResult := do
  let choices ← subscript body "choices"
  let first ← firstOf choices
  let choice ← dictOf first
  let logprobs ← dictOf (orElse (choice.get "logprobs") (.obj []))
  let pairs ← completionsRaw call.sid logprobs
  return .ofLists (pairs.map Prod.fst) (pairs.map Prod.snd) (choice.get "finish_reason") .empty

/-! ## 5. A call of the engine -/

inductive Dialect where
  | sglang
  | vllm
  | completions
  deriving DecidableEq

/-- What came of a call: an exception of the transport (discovery, connection, a status of 400 or
    above, an undecodable body), or the endpoint with what it serves, and the body. -/
inductive EngineAnswer where
  | raised (e : PyError)
  | answered (endpoint servedModel : String) (contextLength : Option Int) (body : Json)

/-- The budget a call asks for. -/
def askedTokens (params : Fields) : Int :=
  match params.get "max_tokens" with
  | .int n => n
  | _ => defaultMaxTokens

/-- `_clamp_to_context_window`. -/
def clampToContextWindow (params : Fields) (promptLen : Nat) (contextLength : Option Int)
    (endpoint sid : String) : Except PyError Fields :=
  match contextLength with
  | none => .ok params
  | some window =>
    let budget := window - promptLen
    if budget ≤ 0 then engineError sid ("prompt is " ++ toString promptLen ++ " tokens but " ++
      endpoint ++ " serves a " ++ pyStr window ++ "-token context window; the session has no " ++
      "room left to generate") else
    if budget < askedTokens params then .ok (params.set "max_tokens" (.int budget)) else .ok params

/-- The body a dialect posts. -/
def Dialect.request (d : Dialect) (servedModel : String) (call : EngineCall) : Json :=
  match d with
  | .sglang => sglangBody call
  | .vllm => vllmBody call
  | .completions => completionsBody servedModel call

/-- The field of that body that holds the prompt. -/
def Dialect.promptField : Dialect → String
  | .sglang => "input_ids"
  | .vllm => "token_ids"
  | .completions => "prompt"

/-- How a dialect reads the body it gets. -/
def Dialect.read (d : Dialect) (py : PyText) (npLoad : NpLoad) (call : EngineCall) (body : Json) :
    Except PyError EngineResult :=
  match d with
  | .sglang => sglangRead py call body
  | .vllm => vllmRead py npLoad call body
  | .completions => completionsRead call body

/-- The call as it is posted, its budget clamped to the endpoint's window. -/
def EngineCall.clamped (call : EngineCall) (endpoint : String) (contextLength : Option Int) :
    Except PyError EngineCall := do
  let params ← clampToContextWindow call.params call.promptIds.length contextLength endpoint call.sid
  return { call with params := params }

/-- The body posted on the way to an answer, if it got that far. -/
def Dialect.posted (d : Dialect) (call : EngineCall) : EngineAnswer → Option Json
  | .raised _ => none
  | .answered endpoint servedModel contextLength _ =>
    match call.clamped endpoint contextLength with
    | .error _ => none
    | .ok call => some (d.request servedModel call)

/-- `_call_engine`: the result, with the parameters the call ran under. -/
def Dialect.callEngine (d : Dialect) (py : PyText) (npLoad : NpLoad) (call : EngineCall)
    (answer : EngineAnswer) : Except PyError (EngineResult × Fields) :=
  match answer with
  | .raised e => .error e
  | .answered endpoint _ contextLength body => do
    let call ← call.clamped endpoint contextLength
    let result ← d.read py npLoad call body
    return (result, call.params)

end RolloutProxy
