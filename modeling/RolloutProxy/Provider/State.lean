/-
  File:      RolloutProxy/Provider/State.lean
  Subject:   THE STATE OF A ROLLOUT PROVIDER (rollout_base.py) and what it is configured with: the
             model registry's bundles (model_registry.py), the transport and the capture layers.

  * The registry is a function from model names: mapping.json, the profile modules and the
    tokenizers they load are not part of the model, and any name may fail to resolve.
  * A bundle owns one stream manager; `managers` holds their states by profile name.
  * `streamState` is what a stream's manager holds for it; every operation below is described by
    what it does to these states.
-/
import RolloutProxy.TokenStream.Manager
import RolloutProxy.Engine.Dialects

namespace RolloutProxy

/-- What a tool parser decodes out of a completion, before the calls get their ids. -/
structure DecodedCompletion where
  content : Option String
  reasoningContent : Option String
  /-- name and arguments of each call -/
  toolCalls : List (String × String)

/-- `extract_completion(token_ids, tools, completion_text)`. -/
abbrev ToolParser := List Int → Json → String → Except PyError DecodedCompletion

/-- The parts of a `ModelProfile` that serving reads. -/
structure Profile where
  name : String
  generationPrompt : String
  assistantTurnEnd : String
  continuationHeaders : List String
  assistantTurnEndings : List String
  prepareDeltaMessages : Option (List Fields → Fields → Except PyError (List Fields))
  defaultReasoningEffort : Option String
  reasoningEfforts : List String
  stopTokenIds : List Int

/-- `ResolvedModel`: a loaded bundle. -/
structure ResolvedModel where
  profile : Profile
  tokenizer : Tokenizer
  toolParser : Option ToolParser
  samplingDefaults : Fields

/-- The manager `_build_bundle` constructs; the caps keep their defaults. -/
def ResolvedModel.streams (r : ResolvedModel) : ManagerConfig :=
  { ManagerConfig.default r.tokenizer with
    generationPrompt := r.profile.generationPrompt
    assistantTurnEnd := r.profile.assistantTurnEnd
    continuationHeaders := r.profile.continuationHeaders
    assistantTurnEndings := r.profile.assistantTurnEndings
    prepareDeltaMessages := r.profile.prepareDeltaMessages
    defaultReasoningEffort := r.profile.defaultReasoningEffort }

/-- Which provider class serves: the two generate protocols, or direct endpoints of an engine. -/
inductive Transport where
  | sglangGenerate
  | vllmGenerate
  | directSglang
  | directVllm
  deriving DecidableEq

def Transport.dialect : Transport → Dialect
  | .sglangGenerate => .sglang
  | .vllmGenerate => .vllm
  | .directSglang => .sglang
  | .directVllm => .completions

/-- Only the generate protocols have the routing-capture layers. -/
def Transport.hasCapture : Transport → Bool
  | .sglangGenerate => true
  | .vllmGenerate => true
  | _ => false

/-- What a provider is built with. -/
structure ProviderConfig where
  resolve : String → Except PyError ResolvedModel
  transport : Transport
  samplingOverrides : Fields
  returnRoutedExperts : Bool
  py : PyText
  npLoad : NpLoad

/-- The last request of a stream the engine rejected with a deterministic 4xx. -/
structure RejectedTurn where
  messages : List Fields
  error : PyError
  attempts : Nat
  reasoningEffort : Option String

structure Provider where
  sessionModels : Dict String String
  sessionLocks : Dict String Unit
  rejectedTurns : Dict String RejectedTurn
  managers : Dict String TokenStreamManager
  runtimeSampling : Fields
  runtimeCapture : Option Bool

namespace Provider

def empty : Provider := ⟨∅, ∅, ∅, ∅, [], none⟩

variable (p : Provider)

/-- The stream manager of a profile. -/
def manager (profile : String) : TokenStreamManager := (p.managers.get? profile).getD .empty

def setManager (profile : String) (m : TokenStreamManager) : Provider :=
  { p with managers := p.managers.set profile m }

/-- What the manager of a profile holds for a stream. -/
def streamState (profile sid : String) : Option SessionState :=
  (p.manager profile).sessions.get? sid

@[simp] theorem manager_setManager (profile k : String) (m : TokenStreamManager) :
    (p.setManager profile m).manager k = if k = profile then m else p.manager k := by
  unfold manager setManager
  rw [Dict.get?_set]
  split <;> rfl

theorem streamState_setManager (profile k sid : String) (m : TokenStreamManager) :
    (p.setManager profile m).streamState k sid =
      if k = profile then m.sessions.get? sid else p.streamState k sid := by
  unfold streamState
  rw [manager_setManager]
  split <;> rfl

/-- A manager that kept its streams leaves every stream state. -/
theorem streamState_setManager_same {profile : String} {m : TokenStreamManager}
    (h : ∀ k, m.sessions.get? k = (p.manager profile).sessions.get? k) (k sid : String) :
    (p.setManager profile m).streamState k sid = p.streamState k sid := by
  rw [streamState_setManager]
  split
  · next e => rw [h, e]; rfl
  · rfl

/-! ## 1. The runtime layers -/

/-- `get_routed_experts_config()["effective"]`; a direct transport captures nothing. -/
def captures (cfg : ProviderConfig) : Bool :=
  cfg.transport.hasCapture && p.runtimeCapture.getD cfg.returnRoutedExperts

/-- `set_runtime_routed_experts` with a validated flag. -/
def setRuntimeCapture (enabled : Option Bool) : Provider := { p with runtimeCapture := enabled }

/-- `set_runtime_sampling_overrides`. -/
def setRuntimeSampling (cfg : ProviderConfig) (overrides : Json) : Except String Provider := do
  let validated ← validateSamplingOverrides cfg.py "sampling_overrides" overrides
  return { p with runtimeSampling := validated }

/-- `{**config, **runtime}`. -/
def overrides (cfg : ProviderConfig) : Fields := Fields.update cfg.samplingOverrides p.runtimeSampling

/-! ## 2. Releasing a stream -/

/-- `release_session`: the pin, the lock, the rejection, and the stream in every bundle. -/
def releaseSession (sid : String) : Provider where
  sessionModels := p.sessionModels.erase sid
  sessionLocks := p.sessionLocks.erase sid
  rejectedTurns := p.rejectedTurns.erase sid
  managers := p.managers.map fun m => m.drop sid
  runtimeSampling := p.runtimeSampling
  runtimeCapture := p.runtimeCapture

/-- `_session_lock`: created on first use. -/
def sessionLock (sid : String) : Provider :=
  if p.sessionLocks.contains sid then p else { p with sessionLocks := p.sessionLocks.set sid () }

end Provider

end RolloutProxy
