/-
  File:      RolloutProxy/Provider/Generate.lean
  Subject:   ONE GENERATION: `generate` (rollout_base.py), cut where it awaits.

  * `beginGenerate` runs to the engine call or to the re-served turn: arguments, model pin,
    effort, cached turn, stored rejection, prompt, sampling parameters.
  * `acceptAnswer` validates what the engine returned; `commitSampled` commits the turn, unless
    the stream was released meanwhile.
  * What each part leaves of the stream states is in Effects.lean.
-/
import RolloutProxy.Provider.State

namespace RolloutProxy

/-- The arguments of `generate`. -/
structure GenerateArgs where
  messages : List Fields
  sessionId : Option String
  model : Option String
  temperature : Json
  topP : Json
  topK : Json
  minP : Json
  maxTokens : Json
  stop : Json
  tools : Json
  repetitionPenalty : Json
  presencePenalty : Json
  frequencyPenalty : Json
  routedExpertsPrior : Option Prior
  seed : Json
  stopTokenIds : Json
  reasoningEffort : Json

/-- `requested`. -/
def GenerateArgs.requested (a : GenerateArgs) : Fields :=
  [("temperature", a.temperature), ("top_p", a.topP), ("top_k", a.topK), ("min_p", a.minP),
    ("repetition_penalty", a.repetitionPenalty), ("presence_penalty", a.presencePenalty),
    ("frequency_penalty", a.frequencyPenalty)]

/-- What `generate` returns. -/
structure Generated where
  promptIds : List Int
  tokenIds : List Int
  logProbs : List PyFloat
  finishReason : String
  completionText : String
  engineMeta : EngineMeta

/-- A generation that awaits its engine. -/
structure Pending where
  sid : String
  model : ResolvedModel
  messages : List Fields
  tools : Json
  effort : Option String
  call : EngineCall
  /-- the distribution parameters as they were before the call -/
  sampling : Fields

/-- A completion that passed the validation. -/
structure Sampled where
  tokenIds : List Int
  logProbs : List PyFloat
  finishReason : String
  engineMeta : EngineMeta

/-- Where `beginGenerate` ends, if it does not raise. -/
inductive Began where
  | replayed (g : Generated)
  | calling (c : Pending)

/-! ## 1. Before the lock -/

/-- The checks before the stream's lock is taken. -/
def GenerateArgs.check (a : GenerateArgs) : Except PyError String :=
  match a.sessionId with
  | none => refuse .noSessionId
  | some sid =>
    match validateTools a.tools, validateReasoningEffort a.reasoningEffort [] with
    | .error e, _ => refuse e
    | .ok _, .error e => refuse e
    | .ok _, .ok _ => .ok sid

/-- The effort the stream runs under: validated for the model, its default where none is given. -/
def effectiveEffort (r : ResolvedModel) (value : Json) : Except PyError (Option String) :=
  match validateReasoningEffort value r.profile.reasoningEfforts with
  | .error e => refuse e
  | .ok effort =>
    if r.profile.reasoningEfforts.isEmpty then .ok none
    else .ok (effort.orElse fun _ => r.profile.defaultReasoningEffort)

/-- `tokenizer.decode(ids, skip_special_tokens=False)`. -/
def ResolvedModel.decode (r : ResolvedModel) (ids : List Int) : Except PyError String :=
  (r.tokenizer.decode ids).mapError .other

/-- `MAX_REJECTED_GENERATIONS` and `TRANSIENT_4XX`. -/
def maxRejectedGenerations : Nat := 2
def transient4xx : List Nat := [408, 425, 429]

/-- A status that is a verdict on the request itself. -/
def deterministicRejection : PyError → Bool
  | .httpStatus status _ => 400 ≤ status && status < 500 && !transient4xx.contains status
  | _ => false

namespace Provider

variable (cfg : ProviderConfig) (p : Provider)

/-! ## 2. Under the lock, up to the engine call -/

/-- `_resolve_for_session`: the model's bundle, pinned on first use. -/
def resolveForSession (sid : String) (model : Option String) :
    Except PyError (ResolvedModel × Provider) :=
  match p.sessionModels.get? sid with
  | none =>
    match model with
    | none => refuse .noModel
    | some name =>
      if name = "" then refuse .noModel else
      match cfg.resolve name with
      | .error e => .error e
      | .ok r => .ok (r, { p with sessionModels := p.sessionModels.set sid name })
  | some pinned =>
    if model.any fun name => name ≠ "" && name ≠ pinned then
      refuse (.modelSwitched pinned (model.getD ""))
    else
      match cfg.resolve pinned with
      | .error e => .error e
      | .ok r => .ok (r, p)

/-- `cached_turn` of the bundle's manager. -/
def cachedTurn (r : ResolvedModel) (sid : String) (messages : List Fields)
    (effort : Option String) : Except PyError (Option ReplayedTurn × Provider) :=
  match (p.manager r.profile.name).cachedTurn r.streams (some sid) messages effort with
  | .error e => .error e
  | .ok (turn, m) => .ok (turn, p.setManager r.profile.name m)

/-- A re-served turn, once its tokens are decoded. -/
def replayed (r : ResolvedModel) (turn : ReplayedTurn) : Except PyError Began :=
  match r.decode turn.completionIds with
  | .error e => .error e
  | .ok text => .ok (.replayed ⟨turn.promptIds, turn.completionIds, turn.logProbs,
      turn.finishReason, text, turn.engineMeta⟩)

/-- `_rejected_repeat`. -/
def rejectedRepeat (sid : String) (messages : List Fields) (effort : Option String) :
    Except PyError (Option PyError) :=
  match p.rejectedTurns.get? sid with
  | none => .ok none
  | some entry =>
    if entry.attempts < maxRejectedGenerations then .ok none else
    match normalizeMessages messages with
    | .error e => refuse e
    | .ok normalized =>
      if !sameMessages normalized entry.messages || effort ≠ entry.reasoningEffort then .ok none
      else .ok (some entry.error)

/-- `build_prompt` of the bundle's manager. -/
def buildPrompt (r : ResolvedModel) (sid : String) (messages : List Fields) (tools : Json)
    (effort : Option String) : Except PyError (List Int) × Provider :=
  let built := (p.manager r.profile.name).buildPrompt r.streams (some sid) messages tools effort
  (built.1, p.setManager r.profile.name built.2)

/-- `sampling_params[key] = value` where a value is given. -/
def withParam (params : Fields) (key : String) (value : Json) : Fields :=
  if value.isNull then params else params.set key value

/-- The parameters before validation: engine default, bundle, request, overrides. -/
def assembledParams (r : ResolvedModel) (a : GenerateArgs) : Fields :=
  let params := Fields.update [("temperature", .float (.finite 1))] r.samplingDefaults
  let params := Fields.update params a.requested.present
  let params := Fields.update params (p.overrides cfg)
  let params := (params.set "max_tokens" a.maxTokens).set "logprobs" (.bool true)
  withParam (withParam (withParam params "stop" a.stop) "seed" a.seed)
    "stop_token_ids" a.stopTokenIds

/-- The request's stop ids, once validated. -/
def GenerateArgs.stopIds (a : GenerateArgs) : List Int :=
  match a.stopTokenIds with
  | .arr ids => intsOf ids
  | _ => []

/-- The sampling parameters of a call. -/
def samplingParams (r : ResolvedModel) (a : GenerateArgs) : Except PyError Fields :=
  let params := p.assembledParams cfg r a
  match validateGenerationParameters cfg.py params with
  | .error message => refuse (.invalidParameter message)
  | .ok () =>
    let params := applyTemperatureFloor params
    if r.profile.stopTokenIds.isEmpty then .ok params
    else .ok (params.set "stop_token_ids"
      (.arr (((r.profile.stopTokenIds ++ GenerateArgs.stopIds a).eraseDups).map .int)))

/-- What the engine is called with for a built prompt. -/
def callFor (r : ResolvedModel) (sid : String) (a : GenerateArgs) (effort : Option String)
    (promptIds : List Int) : Except PyError Pending :=
  match p.samplingParams cfg r a with
  | .error e => .error e
  | .ok params => .ok
    { sid := sid
      model := r
      messages := a.messages
      tools := a.tools
      effort := effort
      call := { promptIds := promptIds, params := params, sid := sid, capture := p.captures cfg,
                prior := a.routedExpertsPrior }
      sampling := samplingOf params }

/-- From the missed cache to the engine call. -/
def beginCall (r : ResolvedModel) (sid : String) (a : GenerateArgs) (effort : Option String) :
    Except PyError Began × Provider :=
  match p.rejectedRepeat sid a.messages effort with
  | .error e => (.error e, p)
  | .ok (some e) => (.error e, p)
  | .ok none =>
    match p.buildPrompt r sid a.messages a.tools effort with
    | (.error e, p) => (.error e, p)
    | (.ok promptIds, p) => ((p.callFor cfg r sid a effort promptIds).map .calling, p)

/-- `generate`, up to its engine call. -/
def beginGenerate (a : GenerateArgs) : Except PyError Began × Provider :=
  match a.check with
  | .error e => (.error e, p)
  | .ok sid =>
    let p := p.sessionLock sid
    match p.resolveForSession cfg sid a.model with
    | .error e => (.error e, p)
    | .ok (r, p) =>
      match effectiveEffort r a.reasoningEffort with
      | .error e => (.error e, p)
      | .ok effort =>
        match p.cachedTurn r sid a.messages effort with
        | .error e => (.error e, p)
        | .ok (some turn, p) => (replayed r turn, p)
        | .ok (none, p) => p.beginCall cfg r sid a effort

/-! ## 3. From the engine's answer on -/

/-- `_note_engine_rejection`, with the exception that is raised on. -/
def noteEngineRejection (sid : String) (messages : List Fields) (error : PyError)
    (effort : Option String) : PyError × Provider :=
  if !deterministicRejection error then (error, p) else
  match normalizeMessages messages with
  | .error e => (.tokenStream e, p)
  | .ok normalized =>
    let fresh : RejectedTurn := ⟨normalized, error, 1, effort⟩
    let entry := match p.rejectedTurns.get? sid with
      | none => fresh
      | some old =>
        if sameMessages old.messages normalized && old.reasoningEffort = effort then
          { old with attempts := old.attempts + 1, error := error }
        else fresh
    (error, { p with rejectedTurns := p.rejectedTurns.set sid entry })

/-- `self._rejected_turns.pop(session_id, None)`. -/
def clearRejection (sid : String) : Provider :=
  { p with rejectedTurns := p.rejectedTurns.erase sid }

end Provider

/-- `normalize_finish_reason`. -/
def normalizeFinishReason (stopReason : Json) (numTokens : Nat) (maxTokens : Json) :
    Except PyError String :=
  if !stopReason.hashable then
    .error (.other ("unhashable type: " ++ quoted stopReason.typeName)) else
  match stopReason with
  | .str "stop" => .ok "stop"
  | .str "length" => .ok "length"
  | .str "abort" => .ok "abort"
  | _ =>
    match maxTokens with
    | .int n => if n ≠ 0 ∧ n ≤ numTokens then .ok "length" else .ok "stop"
    | _ => .ok "stop"

def finiteLogprobs (sid : String) : List Json → Except PyError (List PyFloat)
  | [] => .ok []
  | v :: rest => do
    let x ← finiteLogprob sid v
    let xs ← finiteLogprobs sid rest
    return x :: xs

/-- The validation of an engine result, before anything is committed. -/
def checkResult (sid : String) (result : EngineResult) (maxTokens : Json) :
    Except PyError (List Int × List PyFloat × String) :=
  match result.tokenIds, result.logProbs with
  | .arr ids, .arr lps => do
    let reason ← normalizeFinishReason result.stopReason ids.length maxTokens
    if reason = "abort" then
      .error (.engineAbort ("Session " ++ sid ++ ": the rollout engine aborted the request"))
    if ids.isEmpty then engineError sid "the rollout engine returned no tokens"
    if lps.length ≠ ids.length then
      engineError sid ("the rollout engine returned " ++ toString lps.length ++ " logprobs for " ++
        toString ids.length ++ " tokens; refusing to record a misaligned turn")
    if !ids.all isTokenId then engineError sid "the rollout engine returned invalid token IDs"
    let logProbs ← finiteLogprobs sid lps
    return (intsOf ids, logProbs, reason)
  | _, _ => engineError sid "the rollout engine must return token/logprob lists"

namespace Provider

variable (cfg : ProviderConfig) (p : Provider)

/-- The engine's answer, validated. -/
def acceptAnswer (c : Pending) (answer : EngineAnswer) : Except PyError Sampled × Provider :=
  match cfg.transport.dialect.callEngine cfg.py cfg.npLoad c.call answer with
  | .error e =>
    let noted := p.noteEngineRejection c.sid c.messages e c.effort
    (.error noted.1, noted.2)
  | .ok (result, params) =>
    let p := p.clearRejection c.sid
    match checkResult c.sid result (params.get "max_tokens") with
    | .error e => (.error e, p)
    | .ok (ids, logProbs, reason) => (.ok ⟨ids, logProbs, reason,
        { result.engineMeta with samplingParams := some c.sampling }⟩, p)

/-- The commit, without an await between the check of the pin and the return. -/
def commitSampled (c : Pending) (s : Sampled) (text : String) :
    Except PyError Generated × Provider :=
  let g : Generated := ⟨c.call.promptIds, s.tokenIds, s.logProbs, s.finishReason, text, s.engineMeta⟩
  if !p.sessionModels.contains c.sid then (.ok g, p) else
  match (p.manager c.model.profile.name).commit c.model.streams c.sid c.messages c.call.promptIds
      s.tokenIds (some s.logProbs) (some s.finishReason) s.engineMeta c.tools c.effort with
  | .error e => (.error e, p)
  | .ok m => (.ok g, p.setManager c.model.profile.name m)

/-- `generate`, from the engine's answer on. -/
def finishGenerate (c : Pending) (answer : EngineAnswer) : Except PyError Generated × Provider :=
  match p.acceptAnswer cfg c answer with
  | (.error e, p) => (.error e, p)
  | (.ok s, p) =>
    match c.model.decode s.tokenIds with
    | .error e => (.error e, p)
    | .ok text => p.commitSampled c s text

end Provider

end RolloutProxy
