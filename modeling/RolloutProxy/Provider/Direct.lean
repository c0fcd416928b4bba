/-
  File:      RolloutProxy/Provider/Direct.lean
  Subject:   THE ENDPOINTS OF THE DIRECT TRANSPORT: `DirectRolloutProvider` (rollout_provider.py)
             with its context windows (rollout_sglang.py), for any number of streams side by side.

  * A stream is bound to an endpoint at its first call, in turn; the endpoint's model is discovered
    once, and compared with the stream's, before token ids are sent there.
  * `Leg`: `_call_engine`, cut at its awaits (the discovery lock, the discovery requests, the
    post). Which waiter gets the free lock is left open. What the engine answers goes on as in the
    calls of the stream (`StreamCalls`).
  * Python's `int(text)` is a parameter, and so is the loading of a profile module.
  * `Routed`, `Routed.step`: bindings, what calls know of their endpoints, and what was posted.
  * `direct_endpoints`: token ids go to matching engines only, a stream stays on its endpoint, and
    the bindings take turns.
-/
import RolloutProxy.Provider.Release
import RolloutProxy.Text
import Mathlib.Data.Int.CardIntervalMod

namespace RolloutProxy

/-! ## 1. What an endpoint reports -/

inductive IntError where
  | typeError
  | valueError
  | overflowError

/-- `int(value)`. -/
def pyInt (ofText : String → Option Int) : Json → Except IntError Int
  | .int n => .ok n
  | .bool b => .ok (if b then 1 else 0)
  | .float (.finite q) => .ok (q.num.tdiv q.den)
  | .float (.inf _) => .error .overflowError
  | .float .nan => .error .valueError
  | .str s =>
    match ofText s with
    | some n => .ok n
    | none => .error .valueError
  | _ => .error .typeError

/-- What a direct provider is built with; `normalize_engine_endpoints` refuses no endpoints. -/
structure DirectConfig where
  base : ProviderConfig
  direct : base.transport = .directSglang ∨ base.transport = .directVllm
  /-- `base_urls` -/
  roots : List String
  nonempty : 0 < roots.length
  /-- `load_model_mapping()`: profile modules by model name -/
  mapping : List (String × String)
  /-- `get_profile`: the name of a profile module's profile, with the check of its tokenizer -/
  profileOf : String → Except PyError String
  intText : String → Option Int

namespace DirectConfig

variable (cfg : DirectConfig)

def root (index : Nat) : String := cfg.roots.getD index ""

/-- `self.engine == SGLANG`. -/
def isSglang : Bool := cfg.base.transport.dialect = .sglang

/-- `_vllm_model_id` on a body: the window it stores, and the id. -/
def vllmIdentity (index : Nat) (body : Json) : Except PyError (Option Int × Except PyError Json) := do
  let fields ← dictOf body
  let models := orElse (fields.get "data") (.arr [])
  if !models.truthy then
    .error (.engine (cfg.root index ++ ": /v1/models reported no served model"))
  let first ← firstOf models
  let entry ← dictOf first
  let maxLen := entry.get "max_model_len"
  if maxLen.truthy then
    match pyInt cfg.intText maxLen with
    | .error _ => .error (.other "invalid max_model_len")
    | .ok window => .ok (some window, subscript first "id")
  else .ok (none, subscript first "id")

/-- `_sglang_model_id` on a body. -/
def sglangIdentity (index : Nat) (body : Json) : Except PyError Json :=
  let refused : Except PyError Json := .error (.engine (cfg.root index ++
    ": /get_model_info reported no valid served_model_name or model_path; refusing unverified " ++
    "token IDs"))
  match body with
  | .obj info =>
    match orElse (Fields.get info "served_model_name") (Fields.get info "model_path") with
    | .str model => if isBlank model then refused else .ok (.str (strip model))
    | _ => refused
  | _ => refused

/-- What a discovery response says: a window, where one is stored with it, and the model. -/
def identify (index : Nat) (body : Json) : Option (Option Int) × Except PyError Json :=
  if cfg.isSglang then (none, cfg.sglangIdentity index body) else
  match cfg.vllmIdentity index body with
  | .error e => (none, .error e)
  | .ok (window, id) => (some window, id)

def contextFrom (info : Fields) : List String → Except PyError (Option Int)
  | [] => .ok none
  | key :: rest =>
    match pyInt cfg.intText (info.get key) with
    | .error .overflowError => .error (.other "OverflowError")
    | .error _ => contextFrom info rest
    | .ok n => if 0 < n then .ok (some n) else contextFrom info rest

/-- `next((entry for entry in info if isinstance(entry, dict)), None)`. -/
def firstObject : List Json → Option Fields
  | [] => none
  | .obj fields :: _ => some fields
  | _ :: rest => firstObject rest

/-- `_served_context_length`. -/
def servedContextLength (info : Json) : Except PyError (Option Int) :=
  let info := match info with
    | .arr entries => firstObject entries
    | .obj fields => some fields
    | _ => none
  match info with
  | some fields => cfg.contextFrom fields ["context_length", "max_req_input_len"]
  | none => .ok none

/-! ## 2. Which endpoint matches -/

/-- `resolve_profile`, down to the profile's name. -/
def resolveProfile (modelName : String) : Except PyError String :=
  let name := strip modelName
  if name = "" then .error (.other "model_name is empty; cannot resolve a profile") else
  match cfg.mapping.lookup name with
  | none => .error (.unknownModel name)
  | some profile => cfg.profileOf profile

/-- `name.rstrip("/").rsplit("/", 1)[-1]`. -/
def baseName (name : String) : String :=
  String.ofList (((name.toList.reverse.dropWhile (· = '/')).takeWhile (· ≠ '/')).reverse)

/-- The profile a served model maps to: by its full name, else by its base name. -/
def servedProfile (served : String) : Except PyError String :=
  match cfg.resolveProfile served with
  | .error (.unknownModel _) => cfg.resolveProfile (baseName served)
  | outcome => outcome

/-- `_validate_served_model`, with the id it has checked. -/
def validateServedModel (p : Provider) (index : Nat) (served : Json) (sid : String) :
    Except PyError String :=
  match p.sessionModels.get? sid with
  | none => .error (.engine ("Session " ++ sid ++
      ": cannot verify the backend without a pinned model"))
  | some claimed =>
    match served with
    | .str served =>
      match cfg.servedProfile served with
      | .error (.unknownModel _) => .error (.engine (cfg.root index ++
          " serves unrecognized model " ++ quoted served ++ "; add its name to " ++
          "tokenization/mapping.json with the verified tokenizer profile before sending token IDs"))
      | .error e => .error e
      | .ok servedProfile =>
        match cfg.resolveProfile claimed with
        | .error e => .error e
        | .ok claimedProfile =>
          if servedProfile = claimedProfile then .ok served
          else .error (.engine ("Session " ++ sid ++ " requests model " ++ quoted claimed ++
            " (profile " ++ claimedProfile ++ ") but endpoint " ++ cfg.root index ++ " serves " ++
            quoted served ++ " (profile " ++ servedProfile ++ "); refusing incompatible token IDs"))
    | v => .error (.other (quoted v.typeName ++ " object has no attribute 'rstrip'"))

/-- A served model and a pinned one map to the same profile. -/
def Matched (served : String) (pinned : Option String) : Prop :=
  ∃ name profile, pinned = some name ∧ cfg.servedProfile served = .ok profile ∧
    cfg.resolveProfile name = .ok profile

variable {cfg}

/-- **What passes the check matches.** -/
theorem validateServedModel_ok {p : Provider} {index : Nat} {id : Json} {sid served : String}
    (h : cfg.validateServedModel p index id sid = .ok served) :
    id = .str served ∧ cfg.Matched served (p.sessionModels.get? sid) := by
  unfold validateServedModel at h
  split at h
  · cases h
  · next claimed hpin =>
    split at h
    · next name =>
      split at h
      · cases h
      · cases h
      · next profile hserved =>
        split at h
        · cases h
        · next claimedProfile hclaimed =>
          split at h
          · next heq =>
            cases h
            exact ⟨rfl, claimed, profile, hpin, hserved, by rw [heq, hclaimed]⟩
          · cases h
    · cases h

end DirectConfig

/-! ## 3. The machine -/

/-- Where `_call_engine` of a call is. -/
inductive Leg where
  /-- not begun -/
  | entering
  /-- bound; it waits for the discovery lock -/
  | waiting (index : Nat)
  /-- behind the lock, its discovery request is out -/
  | asking (index : Nat)
  /-- checked; it waits for the lock to fetch the context window -/
  | windowWaiting (index : Nat) (served : String)
  | windowAsking (index : Nat) (served : String)
  /-- the generation request is out -/
  | posted (index : Nat) (served : String) (window : Option Int)

/-- A generation request. -/
structure Post where
  sid : String
  call : Nat
  /-- the releases of the stream before it -/
  epoch : Nat
  endpoint : Nat
  /-- the stream's pinned model -/
  pinned : Option String
  body : Json

/-- A `DirectRolloutProvider`, with the calls of all streams. -/
structure Direct where
  provider : Provider
  /-- the calls of each stream, whose `provider` is not read -/
  streams : String → StreamCalls
  sessionEndpoints : Dict String Nat
  rrIndex : Nat
  /-- `_model_ids`, null where none is known -/
  modelIds : Nat → Json
  modelLens : Nat → Option Int
  /-- `_context_windows`, where they are known -/
  windows : Nat → Option (Option Int)
  /-- the call that holds `_model_lock` -/
  lock : Option (String × Nat)
  legs : String × Nat → Option Leg
  /-- the generation requests, in order -/
  posts : List Post
  /-- the endpoints of the bindings, in order -/
  bindings : List Nat

inductive DirectEvent where
  | begin (sid : String) (a : GenerateArgs)
  | resume (sid : String) (t : Nat) (i : Awaited)
  | release (sid : String)
  /-- `_call_engine` begins -/
  | enter (sid : String) (t : Nat)
  /-- a waiter gets the lock -/
  | lock (sid : String) (t : Nat)
  /-- a request is answered, or fails -/
  | reply (sid : String) (t : Nat) (r : Except PyError Json)

namespace Direct

def start : Direct where
  provider := .empty
  streams := fun _ => .start .empty
  sessionEndpoints := ∅
  rrIndex := 0
  modelIds := fun _ => .null
  modelLens := fun _ => none
  windows := fun _ => none
  lock := none
  legs := fun _ => none
  posts := []
  bindings := []

variable (cfg : DirectConfig) (x : Direct) (sid : String) (t : Nat) (c : Pending)

/-- The calls of a stream, over the provider as it is. -/
def stream : StreamCalls := { x.streams sid with provider := x.provider }

def setStream (w : StreamCalls) : Direct :=
  { x with provider := w.provider, streams := Function.update x.streams sid w }

def setLeg (leg : Leg) : Direct := { x with legs := Function.update x.legs (sid, t) (some leg) }

/-- What a call has handed to `_call_engine`. -/
def pendingCall : Option Pending :=
  match (x.streams sid).calls t with
  | some g =>
    match g.stage with
    | .calling c => some c
    | _ => none
  | none => none

/-- A leg is over: the lock it may hold is free. -/
def lifted : Direct :=
  { x with
    legs := Function.update x.legs (sid, t) none
    lock := if x.lock = some (sid, t) then none else x.lock }

/-- `_call_engine` returns or raises, and the call goes on. -/
def finish (a : EngineAnswer) : Option Direct :=
  ((x.stream sid).step cfg.base sid (.resume t (.answer a))).map (x.setStream sid)

/-- The budget is clamped, and the token ids are sent. -/
def post (index : Nat) (served : String) (window : Option Int) : Option Direct :=
  match c.call.clamped (cfg.root index) window with
  | .error e => x.finish cfg sid t (.raised e)
  | .ok call => some { x.setLeg sid t (.posted index served window) with
      posts := x.posts ++ [{
        sid := sid
        call := t
        epoch := (x.streams sid).releases
        endpoint := index
        pinned := x.provider.sessionModels.get? sid
        body := cfg.base.transport.dialect.request served call }] }

/-- The served model is known: it is checked; SGLang's context window comes next. -/
def verified (index : Nat) : Option Direct :=
  match cfg.validateServedModel x.provider index (x.modelIds index) sid with
  | .error e => x.finish cfg sid t (.raised e)
  | .ok served =>
    if cfg.isSglang then
      match x.windows index with
      | some window => x.post cfg sid t c index served window
      | none => some (x.setLeg sid t (.windowWaiting index served))
    else x.post cfg sid t c index served (x.modelLens index)

/-- `_acquire_endpoint`. -/
def acquireEndpoint : Nat × Direct :=
  match x.sessionEndpoints.get? sid with
  | some index => (index, x)
  | none =>
    let index := x.rrIndex % cfg.roots.length
    (index, { x with
      rrIndex := index + 1
      sessionEndpoints := x.sessionEndpoints.set sid index
      bindings := x.bindings ++ [index] })

/-- `_call_engine` up to its first await. -/
def entered : Option Direct :=
  let (index, y) := x.acquireEndpoint cfg sid
  if (y.modelIds index).isNull then some (y.setLeg sid t (.waiting index))
  else y.verified cfg sid t c index

/-- The lock is taken, and kept for a request where the answer is not known by now. -/
def locked : Leg → Option Direct
  | .waiting index =>
    if (x.modelIds index).isNull then
      some { x.setLeg sid t (.asking index) with lock := some (sid, t) }
    else x.verified cfg sid t c index
  | .windowWaiting index served =>
    match x.windows index with
    | some window => x.post cfg sid t c index served window
    | none => some { x.setLeg sid t (.windowAsking index served) with lock := some (sid, t) }
  | _ => none

/-- A discovery response is read; what it says is kept. -/
def discovered (index : Nat) (body : Json) : Option Direct :=
  let found := cfg.identify index body
  let y := { x with
    modelLens := found.1.elim x.modelLens (Function.update x.modelLens index) }
  match found.2 with
  | .error e => y.finish cfg sid t (.raised e)
  | .ok id =>
    { y with modelIds := Function.update y.modelIds index id }.verified cfg sid t c index

/-- What a request brought. A context window that cannot be fetched is not clamped to. -/
def replied (r : Except PyError Json) : Leg → Option Direct
  | .asking index =>
    match r with
    | .error e => x.finish cfg sid t (.raised e)
    | .ok body => x.discovered cfg sid t c index body
  | .windowAsking index served =>
    match r with
    | .error _ => x.post cfg sid t c index served none
    | .ok body =>
      match cfg.servedContextLength body with
      | .error e => x.finish cfg sid t (.raised e)
      | .ok window =>
        { x with windows := Function.update x.windows index (some window) }.post cfg sid t c index
          served window
  | .posted index served window =>
    match r with
    | .error e => x.finish cfg sid t (.raised e)
    | .ok body => x.finish cfg sid t (.answered (cfg.root index) served window body)
  | _ => none

/-- A call that has come to its engine begins `_call_engine` next. -/
def handedOver : Direct :=
  match x.pendingCall sid t with
  | some _ => x.setLeg sid t .entering
  | none => x

def step : DirectEvent → Option Direct
  | .begin sid a => ((x.stream sid).step cfg.base sid (.begin a)).map (x.setStream sid)
  | .resume sid t i =>
    match i with
    | .answer _ => none
    | _ => ((x.stream sid).step cfg.base sid (.resume t i)).map fun w =>
        (x.setStream sid w).handedOver sid t
  | .release sid => some { x.setStream sid ((x.stream sid).release sid) with
      sessionEndpoints := x.sessionEndpoints.erase sid }
  | .enter sid t =>
    match x.legs (sid, t), x.pendingCall sid t with
    | some .entering, some c => (x.lifted sid t).entered cfg sid t c
    | _, _ => none
  | .lock sid t =>
    match x.lock, x.legs (sid, t), x.pendingCall sid t with
    | none, some leg, some c => (x.lifted sid t).locked cfg sid t c leg
    | _, _, _ => none
  | .reply sid t r =>
    match x.legs (sid, t), x.pendingCall sid t with
    | some leg, some c => (x.lifted sid t).replied cfg sid t c r leg
    | _, _ => none

end Direct

/-! ## 4. The calls of a stream -/

namespace Provider

variable {cfg : ProviderConfig} {p q : Provider} {sid k : String} {g : Generation}

theorem afterPin_pins (pinned : Option String) (hk : k ≠ sid) :
    (p.afterPin cfg sid g pinned).2.sessionModels.get? k = p.sessionModels.get? k := by
  have hpin : ∀ pin, (p.setPin sid pin).sessionModels.get? k = p.sessionModels.get? k := by
    intro pin
    cases pin with
    | none => rfl
    | some name => exact Dict.get?_set_ne _ _ hk
  unfold afterPin
  split
  · rfl
  · split <;> exact hpin _

theorem afterLookup_sessionModels (r : ResolvedModel) (effort : Option String)
    (found : Option SessionState) (gone : Nat) :
    (p.afterLookup sid g r effort found gone).2.sessionModels = p.sessionModels := by
  unfold afterLookup
  split <;> rfl

theorem afterBuild_sessionModels (r : ResolvedModel) (effort : Option String) :
    (p.afterBuild cfg sid g r effort).2.sessionModels = p.sessionModels := by
  unfold afterBuild
  split
  · next heq => exact congrArg (fun y => y.2.sessionModels) heq.symm
  · next heq => split <;> exact congrArg (fun y => y.2.sessionModels) heq.symm

theorem afterAnswer_sessionModels (c : Pending) (a : EngineAnswer) :
    (p.afterAnswer cfg c a).2.sessionModels = p.sessionModels := by
  have haccept : (p.acceptAnswer cfg c a).2.sessionModels = p.sessionModels := by
    unfold acceptAnswer
    split
    · exact noteEngineRejection_sessionModels _ _ _ _
    · simp only
      split <;> rfl
  unfold afterAnswer
  split <;> next heq => exact (congrArg (·.2.sessionModels) heq).symm.trans haccept

theorem afterDecode_sessionModels (c : Pending) (s : Sampled) :
    (p.afterDecode c s).2.sessionModels = p.sessionModels := by
  unfold afterDecode
  split
  · rfl
  · unfold commitSampled
    simp only
    split
    · rfl
    · split <;> rfl

/-- A piece of a call sets the pin of its own stream only. -/
theorem resume_pins {i : Awaited} {n : Next} (hk : k ≠ sid)
    (h : p.resume cfg sid g i = some (n, q)) :
    q.sessionModels.get? k = p.sessionModels.get? k := by
  have hsnd : ∀ {y : Next × Provider}, some y = some (n, q) → y.2 = q := fun e => by cases e; rfl
  unfold resume at h
  cases i with
  | nothing =>
    simp only at h
    split at h
    · rw [← hsnd h]
    · rw [← hsnd h, afterPin_pins _ hk]
    · rw [← hsnd h]
    · rw [← hsnd h]
    · rw [← hsnd h]
    · rw [← hsnd h, afterBuild_sessionModels]
    · rw [← hsnd h, afterDecode_sessionModels]
    · cases h
  | replays gone =>
    simp only at h
    split at h
    · rw [← hsnd h, afterLookup_sessionModels]
    · cases h
  | answer a =>
    simp only at h
    split at h
    · rw [← hsnd h, afterAnswer_sessionModels]
    · cases h

end Provider

namespace StreamCalls

variable {cfg : ProviderConfig} {sid k : String} {w w' : StreamCalls} {t : Nat} {g : Generation}
  {e : CallEvent}

/-- A step of one stream keeps the pins of the others. -/
theorem step_pins (hk : k ≠ sid) (hs : w.step cfg sid e = some w') :
    w'.provider.sessionModels.get? k = w.provider.sessionModels.get? k := by
  rcases step_cases hs with ⟨a, -, -, rfl⟩ | ⟨t, g, -, -, -, -, rfl⟩ |
    ⟨t, i, g, ⟨n, q⟩, -, -, -, hx, rfl⟩ | ⟨-, rfl⟩
  · unfold StreamCalls.begin
    split
    · rfl
    · simp only [Provider.sessionLock_sessionModels]
  · rfl
  · have hq := Provider.resume_pins hk hx
    cases n <;> exact hq
  · exact Dict.get?_erase_ne _ hk

/-- A step that is not the call's own leaves the call where it is. -/
theorem step_others (hl : Locked w) (hg : w.calls t = some g) (hs : w.step cfg sid e = some w')
    (he : ∀ i, e ≠ .resume t i) : w'.calls t = some g := by
  rcases step_cases hs with ⟨a, -, -, rfl⟩ | ⟨t', g', rfl, -, -, -, rfl⟩ |
    ⟨t', i, g', ⟨n, q⟩, rfl, -, -, -, rfl⟩ | ⟨-, rfl⟩
  · unfold StreamCalls.begin
    split
    · exact hg
    · simp only [Function.update_apply]
      rw [if_neg]
      · exact hg
      · rintro rfl
        rw [hl.begun _ le_rfl] at hg
        cases hg
  · have ht : t ≠ t' := fun h => he .nothing (by rw [h])
    simp only [StreamCalls.acquire, Function.update_apply, ht, if_false, hg]
  · have ht : t ≠ t' := fun h => he i (by rw [h])
    cases n <;> simp only [StreamCalls.after, Function.update_apply, ht, if_false, hg]
  · exact hg

/-- Only a release counts as one. -/
theorem step_releases (hrel : e ≠ .release) (hs : w.step cfg sid e = some w') :
    w'.releases = w.releases := by
  rcases step_cases hs with ⟨a, -, -, rfl⟩ | ⟨t, g, -, -, -, -, rfl⟩ |
    ⟨t, i, g, ⟨n, q⟩, -, -, -, -, rfl⟩ | ⟨he, -⟩
  · unfold StreamCalls.begin
    split <;> rfl
  · rfl
  · cases n <;> rfl
  · exact absurd he hrel

/-- The calls under way have all begun behind the last release. -/
structure Held (w : StreamCalls) : Prop where
  locked : Locked w
  recent : ∀ t g, w.calls t = some g → g.lock = w.releases

theorem Held.start (p : Provider) : Held (.start p) :=
  ⟨.start p, fun _ _ hg => by cases hg⟩

/-- A stream is released between its calls only. -/
theorem Held.step (h : Held w) (hs : w.step cfg sid e = some w')
    (hrel : e = .release → ∀ t, w.calls t = none) : Held w' := by
  refine ⟨h.locked.step hs, fun t g hg => ?_⟩
  rcases step_cases hs with ⟨a, -, -, rfl⟩ | ⟨t', g', -, hg', -, -, rfl⟩ |
    ⟨t', i, g', ⟨n, q⟩, -, hg', -, -, rfl⟩ | ⟨he, rfl⟩
  · unfold StreamCalls.begin at hg ⊢
    split at hg
    · exact h.recent t g hg
    · simp only [Function.update_apply] at hg
      split at hg
      · cases hg
        rfl
      · exact h.recent t g hg
  · simp only [StreamCalls.acquire, Function.update_apply] at hg
    split at hg
    · cases hg
      exact h.recent t' g' hg'
    · exact h.recent t g hg
  · cases n <;> simp only [StreamCalls.after, Function.update_apply] at hg <;> split at hg
    · cases hg
      exact h.recent t' g' hg'
    · exact h.recent t g hg
    · cases hg
    · exact h.recent t g hg
  · simp only [StreamCalls.release] at hg
    rw [hrel he t] at hg
    cases hg

/-- **While a call is at the engine its stream's pin stays**: the others wait for the lock. -/
theorem Held.pin (h : Held w) {c : Pending} (hg : w.calls t = some g) (hc : g.stage = .calling c)
    (hs : w.step cfg sid e = some w') (hrel : e ≠ .release) (he : ∀ i, e ≠ .resume t i) :
    w'.provider.sessionModels = w.provider.sessionModels := by
  refine (serialized_same h.locked hg (h.recent t g hg) (by rw [hc]; rfl) hs ?_ hrel he).1
  unfold heedsRelease
  split
  · split
    · rfl
    · next hg' => simp only [h.recent _ _ hg', decide_true, Bool.true_or]
  · rfl

end StreamCalls

/-! ## 5. What holds in every run -/

/-- The leg keeps the discovery lock. -/
def Leg.holdsLock : Leg → Bool
  | .asking _ => true
  | .windowAsking _ _ => true
  | _ => false

namespace Direct

variable {cfg : DirectConfig} {serves : Nat → String} {x z : Direct} {sid : String} {t i : Nat}
  {c : Pending} {leg : Leg} {served : String}

section Knowledge

variable (cfg) (x) (sid)

/-- The stream is bound to the endpoint, whose model has been discovered and checked. -/
structure Checked (index : Nat) (served : String) : Prop where
  bound : x.sessionEndpoints.get? sid = some index
  known : x.modelIds index = .str served
  matched : cfg.Matched served (x.provider.sessionModels.get? sid)

/-- What a call knows of its endpoint. -/
def Knows : Leg → Prop
  | .entering => True
  | .waiting index => x.sessionEndpoints.get? sid = some index
  | .asking index => x.sessionEndpoints.get? sid = some index ∧ x.modelIds index = .null
  | .windowWaiting index served => x.Checked cfg sid index served
  | .windowAsking index served => x.Checked cfg sid index served
  | .posted index _ _ => x.sessionEndpoints.get? sid = some index

end Knowledge

/-- A request was sent to a matching endpoint, and to the one the stream has where it has not been
    released since. -/
structure Sent (cfg : DirectConfig) (x : Direct) (p : Post) : Prop where
  endpoint : p.endpoint < cfg.roots.length
  matched : ∃ served, x.modelIds p.endpoint = .str served ∧ cfg.Matched served p.pinned
  epoch : p.epoch ≤ (x.streams p.sid).releases
  bound : p.epoch = (x.streams p.sid).releases →
    x.sessionEndpoints.get? p.sid = some p.endpoint

structure Routed (cfg : DirectConfig) (serves : Nat → String) (x : Direct) : Prop where
  held : ∀ sid, (x.streams sid).Held
  pending : ∀ sid t leg, x.legs (sid, t) = some leg → ∃ c, x.pendingCall sid t = some c
  knows : ∀ sid t leg, x.legs (sid, t) = some leg → x.Knows cfg sid leg
  /-- one discovery at a time -/
  asked : ∀ sid t leg, x.legs (sid, t) = some leg → leg.holdsLock = true → x.lock = some (sid, t)
  honest : ∀ i served, x.modelIds i = .str served → served = serves i
  placed : ∀ sid i, x.sessionEndpoints.get? sid = some i → i < cfg.roots.length
  turns : x.bindings = (List.range x.bindings.length).map (· % cfg.roots.length)
  next : x.rrIndex % cfg.roots.length = x.bindings.length % cfg.roots.length
  sent : ∀ p ∈ x.posts, Sent cfg x p
  sticky : ∀ p ∈ x.posts, ∀ q ∈ x.posts, p.sid = q.sid → p.epoch = q.epoch →
    p.endpoint = q.endpoint

theorem Routed.start (cfg : DirectConfig) (serves : Nat → String) : Routed cfg serves start where
  held := fun _ => .start _
  pending := fun _ _ _ h => by cases h
  knows := fun _ _ _ h => by cases h
  asked := fun _ _ _ h => by cases h
  honest := fun _ _ h => by cases h
  placed := fun _ _ h => by cases h
  turns := rfl
  next := Nat.zero_mod _
  sent := fun _ h => absurd h List.not_mem_nil
  sticky := fun _ h => absurd h List.not_mem_nil

/-- The legs, where one of them is another now. -/
theorem legs_update {o : Option Leg} {sid' : String} {t' : Nat}
    (h : Function.update x.legs (sid, t) o (sid', t') = some leg) :
    (sid' = sid ∧ t' = t ∧ o = some leg) ∨ ((sid', t') ≠ (sid, t) ∧ x.legs (sid', t') = some leg) := by
  rw [Function.update_apply] at h
  split at h
  · next e =>
    obtain ⟨rfl, rfl⟩ := Prod.mk.inj e
    exact .inl ⟨rfl, rfl, h⟩
  · next e => exact .inr ⟨e, h⟩

theorem Routed.lifted (h : Routed cfg serves x) (sid : String) (t : Nat) :
    Routed cfg serves (x.lifted sid t) := by
  have hlegs : ∀ {sid' t' leg}, (x.lifted sid t).legs (sid', t') = some leg →
      (sid', t') ≠ (sid, t) ∧ x.legs (sid', t') = some leg := fun hl => by
    rcases legs_update hl with ⟨-, -, e⟩ | hl
    · cases e
    · exact hl
  refine ⟨h.held, fun _ _ _ hl => h.pending _ _ _ (hlegs hl).2, ?_, ?_, h.honest, h.placed, h.turns,
    h.next, fun p hp => ⟨(h.sent p hp).1, (h.sent p hp).2, (h.sent p hp).3, (h.sent p hp).4⟩,
    h.sticky⟩
  · intro sid' t' leg hl
    have hk := h.knows _ _ _ (hlegs hl).2
    cases leg with
    | windowWaiting | windowAsking => exact ⟨hk.1, hk.2, hk.3⟩
    | _ => exact hk
  · intro sid' t' leg hl hlock
    obtain ⟨hne, hl⟩ := hlegs hl
    have hx := h.asked _ _ _ hl hlock
    simp only [Direct.lifted]
    rw [if_neg fun e => hne (Option.some.inj (hx.symm.trans e)), hx]

/-- What a call knows stays so: bindings, names and pins are kept. -/
theorem Knows.mono (h : x.Knows cfg sid leg)
    (hb : ∀ i, x.sessionEndpoints.get? sid = some i → z.sessionEndpoints.get? sid = some i)
    (hk : ∀ i served, x.modelIds i = .str served → z.modelIds i = .str served)
    (hn : ∀ i, leg = .asking i → z.modelIds i = x.modelIds i)
    (hp : z.provider.sessionModels.get? sid = x.provider.sessionModels.get? sid) :
    z.Knows cfg sid leg := by
  have hc : ∀ {i served}, x.Checked cfg sid i served → z.Checked cfg sid i served :=
    fun hc => ⟨hb _ hc.1, hk _ _ hc.2, by rw [hp]; exact hc.3⟩
  cases leg with
  | entering => trivial
  | waiting index => exact hb _ h
  | asking index => exact ⟨hb _ h.1, (hn _ rfl).trans h.2⟩
  | windowWaiting index served => exact hc h
  | windowAsking index served => exact hc h
  | posted index served window => exact hb _ h

/-- A request sent stays one that was sent rightly. -/
theorem Sent.mono {p : Post} (h : Sent cfg x p)
    (hk : ∀ i served, x.modelIds i = .str served → z.modelIds i = .str served)
    (hr : (x.streams p.sid).releases ≤ (z.streams p.sid).releases)
    (hb : (z.streams p.sid).releases = (x.streams p.sid).releases →
      ∀ i, x.sessionEndpoints.get? p.sid = some i → z.sessionEndpoints.get? p.sid = some i) :
    Sent cfg z p where
  endpoint := h.endpoint
  matched := by
    obtain ⟨served, hid, hm⟩ := h.matched
    exact ⟨served, hk _ _ hid, hm⟩
  epoch := h.epoch.trans hr
  bound := fun e => by
    have hx := h.epoch
    exact hb (by omega) _ (h.bound (by omega))

/-- A call goes on to another leg; where it holds the lock there, it took it free. -/
theorem Routed.withLeg (h : Routed cfg serves x) (leg : Leg) (hc : x.pendingCall sid t = some c)
    (hk : x.Knows cfg sid leg) {o : Option (String × Nat)}
    (hlock : leg.holdsLock = true → o = some (sid, t)) (hkeep : o = x.lock ∨ x.lock = none) :
    Routed cfg serves { x.setLeg sid t leg with lock := o } where
  held := h.held
  pending := fun sid' t' leg' hl => by
    rcases legs_update hl with ⟨rfl, rfl, -⟩ | ⟨-, hl⟩
    · exact ⟨c, hc⟩
    · exact h.pending _ _ _ hl
  knows := fun sid' t' leg' hl => by
    have hk' : x.Knows cfg sid' leg' := by
      rcases legs_update hl with ⟨rfl, rfl, e⟩ | ⟨-, hl⟩
      · cases e
        exact hk
      · exact h.knows _ _ _ hl
    exact hk'.mono (fun _ => id) (fun _ _ => id) (fun _ _ => rfl) rfl
  asked := fun sid' t' leg' hl hl' => by
    rcases legs_update hl with ⟨rfl, rfl, e⟩ | ⟨-, hl⟩
    · cases e
      exact hlock hl'
    · have hx := h.asked _ _ _ hl hl'
      rcases hkeep with rfl | hfree
      · exact hx
      · rw [hfree] at hx
        cases hx
  honest := h.honest
  placed := h.placed
  turns := h.turns
  next := h.next
  sent := fun p hp => (h.sent p hp).mono (fun _ _ => id) le_rfl fun _ _ => id
  sticky := h.sticky

theorem Routed.setLeg (h : Routed cfg serves x) (leg : Leg)
    (hc : x.pendingCall sid t = some c) (hk : x.Knows cfg sid leg) (hlock : leg.holdsLock = false) :
    Routed cfg serves (x.setLeg sid t leg) :=
  h.withLeg leg hc hk (fun e => by rw [hlock] at e; cases e) (.inl rfl)

theorem pendingCall_some (h : x.pendingCall sid t = some c) :
    ∃ g, (x.streams sid).calls t = some g ∧ g.stage = .calling c := by
  unfold pendingCall at h
  split at h
  · next g hg =>
    split at h
    · next c' hc =>
      cases h
      exact ⟨g, hg, hc⟩
    · cases h
  · cases h

theorem pendingCall_of {g : Generation} (hg : (x.streams sid).calls t = some g)
    (hc : g.stage = .calling c) : x.pendingCall sid t = some c := by
  simp only [pendingCall, hg, hc]

theorem Routed.stream (h : Routed cfg serves x) (sid : String) : (x.stream sid).Held :=
  have hx := h.held sid
  ⟨⟨hx.locked.1, hx.locked.2, hx.locked.3, hx.locked.4, hx.locked.5⟩, hx.recent⟩

/-- **Calls that are not at their engine go on**, and those at theirs do not notice. -/
theorem Routed.called (h : Routed cfg serves x) {e : CallEvent} {w : StreamCalls}
    (hs : (x.stream sid).step cfg.base sid e = some w) (hrel : e ≠ .release)
    (he : ∀ t i, e = .resume t i → x.legs (sid, t) = none) :
    Routed cfg serves (x.setStream sid w) := by
  have hreleases : w.releases = (x.stream sid).releases := StreamCalls.step_releases hrel hs
  have hstreams : ∀ k, ((x.setStream sid w).streams k).releases = (x.streams k).releases := by
    intro k
    simp only [setStream, Function.update_apply]
    split
    · next e =>
      rw [e, hreleases]
      rfl
    · rfl
  -- the other calls of the stream wait for the lock; other streams set no pin of this one
  have hothers : ∀ k t leg, x.legs (k, t) = some leg →
      (∃ c, (x.setStream sid w).pendingCall k t = some c) ∧
        w.provider.sessionModels.get? k = x.provider.sessionModels.get? k := by
    intro k t leg hl
    obtain ⟨c, hc⟩ := h.pending _ _ _ hl
    obtain ⟨g, hg, hstage⟩ := pendingCall_some hc
    by_cases hk : k = sid
    · subst hk
      have hne : ∀ i, e ≠ .resume t i := fun i e => by
        rw [he t i e] at hl
        cases hl
      have hw : w.calls t = some g := StreamCalls.step_others (h.stream k).locked hg hs hne
      refine ⟨⟨c, pendingCall_of (g := g) ?_ hstage⟩, ?_⟩
      · simp only [setStream, Function.update_self, hw]
      · rw [(h.stream k).pin hg hstage hs hrel hne]
        rfl
    · refine ⟨⟨c, pendingCall_of (g := g) ?_ hstage⟩, StreamCalls.step_pins hk hs⟩
      simp only [setStream, Function.update_apply, hk, if_false, hg]
  refine ⟨fun k => ?_, fun k t leg hl => (hothers k t leg hl).1, fun k t leg hl => ?_, h.asked,
    h.honest, h.placed, h.turns, h.next, fun p hp => ?_, h.sticky⟩
  · simp only [setStream, Function.update_apply]
    split
    · exact (h.stream sid).step hs fun e => absurd e hrel
    · exact h.held k
  · exact (h.knows k t leg hl).mono (fun _ => id) (fun _ _ => id) (fun _ _ => rfl)
      (hothers k t leg hl).2
  · exact (h.sent p hp).mono (fun _ _ => id) (hstreams p.sid).ge fun _ _ => id

/-- A call that ends at its engine, or goes on from it. -/
theorem Routed.finish (h : Routed cfg serves x) (hfree : x.legs (sid, t) = none) {a : EngineAnswer}
    (hz : x.finish cfg sid t a = some z) : Routed cfg serves z := by
  obtain ⟨w, hw, rfl⟩ := Option.map_eq_some_iff.mp hz
  refine h.called hw (fun e => by cases e) fun t' i e => ?_
  cases e
  exact hfree

/-- **Token ids are sent** where the endpoint has been checked. -/
theorem Routed.post (h : Routed cfg serves x) (hfree : x.legs (sid, t) = none)
    (hc : x.pendingCall sid t = some c) (hchecked : x.Checked cfg sid i served) {window : Option Int}
    (hz : x.post cfg sid t c i served window = some z) : Routed cfg serves z := by
  unfold Direct.post at hz
  split at hz
  · exact h.finish hfree hz
  · cases hz
    have hleg := h.setLeg (.posted i served window) hc hchecked.bound rfl
    -- of this stream's requests since its last release, all went where it is bound
    have hbound : ∀ p ∈ x.posts, p.sid = sid → p.epoch = (x.streams sid).releases →
        p.endpoint = i := fun p hp hsid hepoch => by
      have hb := (h.sent p hp).bound (by rw [hsid, hepoch])
      rw [hsid, hchecked.bound] at hb
      exact (Option.some.inj hb).symm
    refine ⟨hleg.1, hleg.2, ?_, hleg.4, hleg.5, hleg.6, hleg.7, hleg.8, fun p hp => ?_,
      fun p hp q hq hsid hepoch => ?_⟩
    · intro sid' t' leg' hl
      exact (hleg.3 sid' t' leg' hl).mono (fun _ => id) (fun _ _ => id) (fun _ _ => rfl) rfl
    · rcases List.mem_append.mp hp with hp | hp
      · exact (h.sent p hp).mono (fun _ _ => id) le_rfl fun _ _ => id
      · rw [List.mem_singleton.mp hp]
        exact ⟨h.placed _ _ hchecked.bound, ⟨served, hchecked.known, hchecked.matched⟩, le_rfl,
          fun _ => hchecked.bound⟩
    · rcases List.mem_append.mp hp with hp | hp <;> rcases List.mem_append.mp hq with hq | hq
      · exact h.sticky p hp q hq hsid hepoch
      · rw [List.mem_singleton.mp hq] at hsid hepoch ⊢
        exact hbound p hp hsid hepoch
      · rw [List.mem_singleton.mp hp] at hsid hepoch ⊢
        exact (hbound q hq hsid.symm hepoch.symm).symm
      · rw [List.mem_singleton.mp hp, List.mem_singleton.mp hq]

/-- **The check stands before every request.** -/
theorem Routed.verified (h : Routed cfg serves x) (hfree : x.legs (sid, t) = none)
    (hc : x.pendingCall sid t = some c) (hb : x.sessionEndpoints.get? sid = some i)
    (hz : x.verified cfg sid t c i = some z) : Routed cfg serves z := by
  unfold Direct.verified at hz
  split at hz
  · exact h.finish hfree hz
  · next served hs =>
    obtain ⟨hid, hm⟩ := DirectConfig.validateServedModel_ok hs
    have hchecked : x.Checked cfg sid i served := ⟨hb, hid, hm⟩
    split at hz
    · split at hz
      · exact h.post hfree hc hchecked hz
      · cases hz
        exact h.setLeg _ hc hchecked rfl
    · exact h.post hfree hc hchecked hz

/-- A stream that has no endpoint takes the next one. -/
theorem Routed.acquired (h : Routed cfg serves x) (sid : String) :
    Routed cfg serves (x.acquireEndpoint cfg sid).2 ∧
      (x.acquireEndpoint cfg sid).2.sessionEndpoints.get? sid =
        some (x.acquireEndpoint cfg sid).1 := by
  unfold acquireEndpoint
  split
  · next index hb => exact ⟨h, hb⟩
  · next hnone =>
    have hkeep : ∀ k i, x.sessionEndpoints.get? k = some i →
        (x.sessionEndpoints.set sid (x.rrIndex % cfg.roots.length)).get? k = some i := by
      intro k i hb
      rw [Dict.get?_set_ne _ _ fun e => by rw [e, hnone] at hb; cases hb]
      exact hb
    refine ⟨⟨h.held, h.pending, fun k t leg hl => ?_, h.asked, h.honest, fun k i hb => ?_, ?_, ?_,
      fun p hp => ?_, h.sticky⟩, Dict.get?_set_self _ _ _⟩
    · exact (h.knows k t leg hl).mono (hkeep k) (fun _ _ => id) (fun _ _ => rfl) rfl
    · simp only [Dict.get?_set] at hb
      split at hb
      · cases hb
        exact Nat.mod_lt _ cfg.nonempty
      · exact h.placed k i hb
    · simp only [List.length_append, List.length_singleton, List.range_succ, List.map_append,
        List.map_singleton, ← h.turns, h.next]
    · simp only [List.length_append, List.length_singleton]
      rw [Nat.add_mod, Nat.mod_mod, ← Nat.add_mod, Nat.add_mod, h.next, ← Nat.add_mod]
    · exact (h.sent p hp).mono (fun _ _ => id) le_rfl fun _ => hkeep p.sid

theorem acquireEndpoint_kept (cfg : DirectConfig) (x : Direct) (sid : String) :
    (x.acquireEndpoint cfg sid).2.legs = x.legs ∧ (x.acquireEndpoint cfg sid).2.streams = x.streams ∧
      (x.acquireEndpoint cfg sid).2.posts = x.posts ∧
      (x.acquireEndpoint cfg sid).2.provider = x.provider := by
  unfold acquireEndpoint
  split <;> exact ⟨rfl, rfl, rfl, rfl⟩

theorem pendingCall_congr {y : Direct} (h : y.streams = x.streams) :
    y.pendingCall sid t = x.pendingCall sid t := by
  unfold pendingCall
  rw [h]

theorem null_of_isNull {v : Json} (h : v.isNull = true) : v = .null := by
  cases v <;> first | rfl | cases h

theorem Routed.entered (h : Routed cfg serves x) (hfree : x.legs (sid, t) = none)
    (hc : x.pendingCall sid t = some c) (hz : x.entered cfg sid t c = some z) :
    Routed cfg serves z := by
  obtain ⟨hy, hb⟩ := h.acquired sid
  obtain ⟨hlegs, hstreams, -, -⟩ := acquireEndpoint_kept cfg x sid
  have hcy : (x.acquireEndpoint cfg sid).2.pendingCall sid t = some c :=
    (pendingCall_congr hstreams).trans hc
  unfold Direct.entered at hz
  simp only at hz
  split at hz
  · cases hz
    exact hy.setLeg _ hcy hb rfl
  · exact hy.verified (by rw [hlegs]; exact hfree) hcy hb hz

/-- **The lock is taken free**, and no one else asks. -/
theorem Routed.locked (h : Routed cfg serves x) (hfree : x.legs (sid, t) = none)
    (hc : x.pendingCall sid t = some c) (hk : x.Knows cfg sid leg) (hlock : x.lock = none)
    (hz : x.locked cfg sid t c leg = some z) : Routed cfg serves z := by
  unfold Direct.locked at hz
  split at hz
  · next index =>
    split at hz
    · next hnull =>
      cases hz
      exact h.withLeg (.asking index) hc ⟨hk, null_of_isNull hnull⟩ (fun _ => rfl)
        (.inr hlock)
    · exact h.verified hfree hc hk hz
  · next index served =>
    split at hz
    · exact h.post hfree hc hk hz
    · cases hz
      exact h.withLeg (.windowAsking index served) hc hk (fun _ => rfl) (.inr hlock)
  · cases hz

/-- An endpoint's model is learned once, by the call that held the lock. -/
theorem Routed.learn (h : Routed cfg serves x) (hlock : x.lock = none) (hnull : x.modelIds i = .null)
    {name : Json} (hname : ∀ served, name = .str served → served = serves i) :
    Routed cfg serves { x with modelIds := Function.update x.modelIds i name } := by
  have hkeep : ∀ j served, x.modelIds j = .str served →
      Function.update x.modelIds i name j = .str served := by
    intro j served hj
    rw [Function.update_of_ne]
    · exact hj
    · rintro rfl
      rw [hnull] at hj
      cases hj
  refine ⟨h.held, h.pending, fun k t leg hl => ?_, h.asked, fun j served hj => ?_, h.placed, h.turns,
    h.next, fun p hp => (h.sent p hp).mono hkeep le_rfl fun _ _ => id, h.sticky⟩
  · refine (h.knows k t leg hl).mono (fun _ => id) hkeep (fun j e => ?_) rfl
    have hasked := h.asked k t leg hl (by rw [e]; rfl)
    rw [hlock] at hasked
    cases hasked
  · simp only [Function.update_apply] at hj
    split at hj
    · next e =>
      rw [e]
      exact hname _ hj
    · exact h.honest j served hj

/-- What an endpoint's response calls its model is the model it serves. -/
def Reports (cfg : DirectConfig) (serves : Nat → String) (index : Nat) (body : Json) : Prop :=
  ∀ served, (cfg.identify index body).2 = .ok (.str served) → served = serves index

theorem Routed.discovered (h : Routed cfg serves x) (hfree : x.legs (sid, t) = none)
    (hc : x.pendingCall sid t = some c) (hlock : x.lock = none)
    (hk : x.sessionEndpoints.get? sid = some i ∧ x.modelIds i = .null) {body : Json}
    (hr : Reports cfg serves i body) (hz : x.discovered cfg sid t c i body = some z) :
    Routed cfg serves z := by
  have hwindow : ∀ lens, Routed cfg serves { x with modelLens := lens } := fun lens =>
    ⟨h.held, h.pending, fun k t leg hl => (h.knows k t leg hl).mono (fun _ => id) (fun _ _ => id)
      (fun _ _ => rfl) rfl, h.asked, h.honest, h.placed, h.turns, h.next,
      fun p hp => (h.sent p hp).mono (fun _ _ => id) le_rfl fun _ _ => id, h.sticky⟩
  have hy := hwindow ((cfg.identify i body).1.elim x.modelLens (Function.update x.modelLens i))
  unfold Direct.discovered at hz
  simp only at hz
  split at hz
  · exact hy.finish hfree hz
  · next name hname =>
    have hlearned := hy.learn hlock hk.2 fun served e => hr served (hname.trans (congrArg _ e))
    exact hlearned.verified hfree hc hk.1 hz

theorem Routed.replied (h : Routed cfg serves x) (hfree : x.legs (sid, t) = none)
    (hc : x.pendingCall sid t = some c) (hk : x.Knows cfg sid leg)
    (hlock : leg.holdsLock = true → x.lock = none) {r : Except PyError Json}
    (hr : ∀ i body, leg = .asking i → r = .ok body → Reports cfg serves i body)
    (hz : x.replied cfg sid t c r leg = some z) : Routed cfg serves z := by
  unfold Direct.replied at hz
  split at hz
  · next index =>
    split at hz
    · exact h.finish hfree hz
    · next body => exact h.discovered hfree hc (hlock rfl) hk (hr index body rfl rfl) hz
  · next index served =>
    split at hz
    · exact h.post hfree hc hk hz
    · split at hz
      · exact h.finish hfree hz
      · next window _ =>
        have hy : Routed cfg serves
            { x with windows := Function.update x.windows index (some window) } :=
          ⟨h.held, h.pending, fun k t leg hl => (h.knows k t leg hl).mono (fun _ => id)
            (fun _ _ => id) (fun _ _ => rfl) rfl, h.asked, h.honest, h.placed, h.turns, h.next,
            fun p hp => (h.sent p hp).mono (fun _ _ => id) le_rfl fun _ _ => id, h.sticky⟩
        have hchecked : x.Checked cfg sid index served := hk
        exact hy.post hfree hc ⟨hchecked.1, hchecked.2, hchecked.3⟩ hz
  · split at hz <;> exact h.finish hfree hz
  · cases hz

/-- A stream is released: its endpoint is free to be another. -/
theorem Routed.release (h : Routed cfg serves x) (hidle : ∀ t, (x.streams sid).calls t = none) :
    Routed cfg serves { x.setStream sid ((x.stream sid).release sid) with
      sessionEndpoints := x.sessionEndpoints.erase sid } := by
  -- a stream with a leg is another one
  have hne : ∀ {k t leg}, x.legs (k, t) = some leg → k ≠ sid := by
    rintro k t leg hl rfl
    obtain ⟨c, hc⟩ := h.pending _ _ _ hl
    obtain ⟨g, hg, -⟩ := pendingCall_some hc
    rw [hidle t] at hg
    cases hg
  have hkeep : ∀ {k : String} {i : Nat}, k ≠ sid → x.sessionEndpoints.get? k = some i →
      (x.sessionEndpoints.erase sid).get? k = some i := fun hk hb => by
    rw [Dict.get?_erase_ne _ hk]
    exact hb
  refine ⟨fun k => ?_, fun k t leg hl => ?_, fun k t leg hl => ?_, h.asked, h.honest, fun k i hb => ?_,
    h.turns, h.next, fun p hp => ?_, h.sticky⟩
  · simp only [setStream, Function.update_apply]
    split
    · have hs : (x.stream sid).step cfg.base sid .release = some ((x.stream sid).release sid) := rfl
      exact (h.stream sid).step hs fun _ => hidle
    · exact h.held k
  · obtain ⟨c, hc⟩ := h.pending k t leg hl
    obtain ⟨g, hg, hstage⟩ := pendingCall_some hc
    refine ⟨c, pendingCall_of (g := g) ?_ hstage⟩
    simp only [setStream, Function.update_apply, hne hl, if_false, hg]
  · exact (h.knows k t leg hl).mono (fun _ => hkeep (hne hl)) (fun _ _ => id) (fun _ _ => rfl)
      (Dict.get?_erase_ne _ (hne hl))
  · simp only [Dict.get?_erase] at hb
    split at hb
    · cases hb
    · exact h.placed k i hb
  · refine (h.sent p hp).mono (fun _ _ => id) ?_ fun hr i hb => ?_
    · simp only [setStream, Function.update_apply]
      split
      · next e =>
        rw [e]
        exact Nat.le_succ _
      · exact le_rfl
    · refine hkeep (fun e => ?_) hb
      simp only [setStream, e, Function.update_self] at hr
      exact absurd hr (Nat.succ_ne_self _)

/-- What is assumed of a run: each endpoint keeps reporting the model it serves, and a stream is
    released while no call of it is under way. -/
def Regular (cfg : DirectConfig) (serves : Nat → String) (x : Direct) : DirectEvent → Prop
  | .release sid => ∀ t, (x.streams sid).calls t = none
  | .reply sid t (.ok body) => ∀ i, x.legs (sid, t) = some (.asking i) → Reports cfg serves i body
  | _ => True

/-- A call at its engine awaits the engine only. -/
theorem calling_resume {cfg : ProviderConfig} {w w' : StreamCalls} {g : Generation}
    {a : Awaited} (hg : w.calls t = some g) (hc : g.stage = .calling c)
    (hs : w.step cfg sid (.resume t a) = some w') : ∃ answer, a = .answer answer := by
  rcases StreamCalls.step_cases hs with ⟨_, he, -, -⟩ | ⟨_, g', he, hg', hw, -, -⟩ |
    ⟨_, i, g', x, he, hg', -, hx, -⟩ | ⟨he, -⟩
  · cases he
  · cases he
    rw [hg] at hg'
    cases hg'
    rw [hc] at hw
    cases hw
  · cases he
    rw [hg] at hg'
    cases hg'
    unfold Provider.resume at hx
    simp only [hc] at hx
    cases a with
    | answer answer => exact ⟨answer, rfl⟩
    | nothing => cases hx
    | replays n => cases hx
  · cases he

theorem Routed.resumed (h : Routed cfg serves x) {a : Awaited} (ha : ∀ answer, a ≠ .answer answer)
    {w : StreamCalls} (hs : (x.stream sid).step cfg.base sid (.resume t a) = some w) :
    Routed cfg serves ((x.setStream sid w).handedOver sid t) := by
  have hfree : x.legs (sid, t) = none := by
    rw [Option.eq_none_iff_forall_not_mem]
    intro leg hl
    obtain ⟨c, hc⟩ := h.pending sid t leg hl
    obtain ⟨g, hg, hstage⟩ := pendingCall_some hc
    obtain ⟨answer, e⟩ := calling_resume (w := x.stream sid) hg hstage hs
    exact ha answer e
  have hy : Routed cfg serves (x.setStream sid w) :=
    h.called hs (fun e => by cases e) fun t' i e => by
      cases e
      exact hfree
  unfold handedOver
  split
  · next hc => exact hy.setLeg .entering hc trivial rfl
  · exact hy

/-- **Every step keeps it.** -/
theorem Routed.step (h : Routed cfg serves x) {e : DirectEvent} (hs : x.step cfg e = some z)
    (hr : Regular cfg serves x e) : Routed cfg serves z := by
  have hlifted : ∀ sid t, (x.lifted sid t).legs (sid, t) = none := fun sid t =>
    Function.update_self _ _ _
  have hknows : ∀ sid t leg, x.legs (sid, t) = some leg → (x.lifted sid t).Knows cfg sid leg :=
    fun sid t leg hl =>
      (h.knows sid t leg hl).mono (fun _ => id) (fun _ _ => id) (fun _ _ => rfl) rfl
  cases e with
  | begin sid a =>
    obtain ⟨w, hw, rfl⟩ := Option.map_eq_some_iff.mp hs
    exact h.called hw (fun e => by cases e) fun t i e => by cases e
  | resume sid t a =>
    cases a with
    | answer answer => cases hs
    | nothing =>
      obtain ⟨w, hw, rfl⟩ := Option.map_eq_some_iff.mp hs
      exact h.resumed (fun answer e => by cases e) hw
    | replays n =>
      obtain ⟨w, hw, rfl⟩ := Option.map_eq_some_iff.mp hs
      exact h.resumed (fun answer e => by cases e) hw
  | release sid =>
    cases hs
    exact h.release hr
  | enter sid t =>
    simp only [Direct.step] at hs
    split at hs
    · next hc => exact (h.lifted sid t).entered (hlifted sid t) hc hs
    · cases hs
  | lock sid t =>
    simp only [Direct.step] at hs
    split at hs
    · next hlock hl hc =>
      refine (h.lifted sid t).locked (hlifted sid t) hc (hknows sid t _ hl) ?_ hs
      simp only [Direct.lifted, hlock, reduceCtorEq, if_false]
    · cases hs
  | reply sid t r =>
    simp only [Direct.step] at hs
    split at hs
    · next leg c hl hc =>
      refine (h.lifted sid t).replied (hlifted sid t) hc (hknows sid t leg hl) (fun hlock => ?_)
        (fun i body e e' => ?_) hs
      · simp only [Direct.lifted, h.asked sid t leg hl hlock, if_true]
      · subst e'
        exact hr i (by rw [hl, e])
    · cases hs

/-! ## 6. What is refused -/

/-- The call, its endpoint and the endpoint's model, where a step goes by a discovery: by the
    response that it brings, or by what was kept of an earlier one. -/
def consults (cfg : DirectConfig) (x : Direct) :
    DirectEvent → Option (String × Nat × Nat × Except PyError Json)
  | .enter sid t =>
    let (index, y) := x.acquireEndpoint cfg sid
    if (y.modelIds index).isNull then none else some (sid, t, index, .ok (y.modelIds index))
  | .lock sid t =>
    match x.legs (sid, t) with
    | some (.waiting index) =>
      if (x.modelIds index).isNull then none else some (sid, t, index, .ok (x.modelIds index))
    | _ => none
  | .reply sid t r =>
    match x.legs (sid, t) with
    | some (.asking index) => some (sid, t, index, r.bind fun body => (cfg.identify index body).2)
    | _ => none
  | _ => none

/-- Nothing is sent, and the call ends with an exception. -/
def Refuses (x z : Direct) (sid : String) (t : Nat) : Prop :=
  z.posts = x.posts ∧
    ∃ e, (z.streams sid).returned = (x.streams sid).returned ++ [(t, .error e)]

theorem finish_raised {e : PyError} (hz : x.finish cfg sid t (.raised e) = some z) :
    x.Refuses z sid t := by
  obtain ⟨w, hw, rfl⟩ := Option.map_eq_some_iff.mp hz
  refine ⟨rfl, ?_⟩
  rcases StreamCalls.step_cases hw with ⟨_, he, -, -⟩ | ⟨_, _, he, -, -, -, -⟩ |
    ⟨t', i, g, ⟨n, q⟩, he, -, -, hx, rfl⟩ | ⟨he, -⟩
  · cases he
  · cases he
  · cases he
    unfold Provider.resume at hx
    simp only at hx
    split at hx
    · next c _ =>
      cases Option.some.inj hx
      exact ⟨_, by simp only [setStream, Function.update_self]; rfl⟩
    · cases hx
  · cases he

theorem verified_refused (hm : ∀ served, x.modelIds i = .str served →
      ¬ cfg.Matched served (x.provider.sessionModels.get? sid))
    (hz : x.verified cfg sid t c i = some z) : x.Refuses z sid t := by
  unfold Direct.verified at hz
  split at hz
  · exact finish_raised hz
  · next served hs =>
    obtain ⟨hid, hmatched⟩ := DirectConfig.validateServedModel_ok hs
    exact absurd hmatched (hm served hid)

theorem entered_refused (hknown : ¬ ((x.acquireEndpoint cfg sid).2.modelIds
      (x.acquireEndpoint cfg sid).1).isNull = true)
    (hm : ∀ served, (x.acquireEndpoint cfg sid).2.modelIds (x.acquireEndpoint cfg sid).1 =
      .str served → ¬ cfg.Matched served (x.provider.sessionModels.get? sid))
    (hz : x.entered cfg sid t c = some z) : x.Refuses z sid t := by
  obtain ⟨-, hstreams, hposts, hprovider⟩ :=
    acquireEndpoint_kept cfg x sid
  unfold Direct.entered at hz
  simp only at hz
  rw [if_neg hknown] at hz
  have href := verified_refused (fun served hid => by rw [hprovider]; exact hm served hid) hz
  exact ⟨href.1.trans hposts, by rw [← hstreams]; exact href.2⟩

theorem locked_refused (hknown : ¬ (x.modelIds i).isNull = true)
    (hm : ∀ served, x.modelIds i = .str served →
      ¬ cfg.Matched served (x.provider.sessionModels.get? sid))
    (hz : x.locked cfg sid t c (.waiting i) = some z) : x.Refuses z sid t := by
  simp only [Direct.locked] at hz
  rw [if_neg hknown] at hz
  exact verified_refused hm hz

theorem replied_refused {r : Except PyError Json}
    (hm : ∀ served, (r.bind fun body => (cfg.identify i body).2) = .ok (.str served) →
      ¬ cfg.Matched served (x.provider.sessionModels.get? sid))
    (hz : x.replied cfg sid t c r (.asking i) = some z) : x.Refuses z sid t := by
  cases r with
  | error e => exact finish_raised hz
  | ok body =>
    simp only [Direct.replied, Direct.discovered] at hz
    split at hz
    · have href := finish_raised hz
      exact ⟨href.1, href.2⟩
    · next name hname =>
      have href := verified_refused (fun served he => by
        simp only [Function.update_self] at he
        exact hm served (by rw [← he]; exact hname)) hz
      exact ⟨href.1, href.2⟩

/-- A leg that is over changes nothing of what is bound and known. -/
theorem acquireEndpoint_lifted (k : String) : (x.lifted sid t).acquireEndpoint cfg k =
    ((x.acquireEndpoint cfg k).1, (x.acquireEndpoint cfg k).2.lifted sid t) := by
  unfold acquireEndpoint
  cases h : x.sessionEndpoints.get? k <;> simp only [Direct.lifted, h]

/-- **A discovery that fails or does not match sends nothing**, and its call raises. -/
theorem consults_refused {e : DirectEvent} {found : Except PyError Json}
    (hs : x.step cfg e = some z) (hc : x.consults cfg e = some (sid, t, i, found))
    (hm : ∀ served, found = .ok (.str served) →
      ¬ cfg.Matched served (x.provider.sessionModels.get? sid)) : x.Refuses z sid t := by
  -- the call learns what is served as it enters, as it gets the lock, or from its reply
  cases e with
  | enter sid' t' =>
    simp only [Direct.step] at hs
    simp only [consults] at hc
    split at hs
    · split at hc
      · cases hc
      · next hknown =>
        simp only [Option.some.injEq, Prod.mk.injEq] at hc
        obtain ⟨rfl, rfl, rfl, rfl⟩ := hc
        refine entered_refused (x := x.lifted sid' t') ?_ (fun served hid => ?_) hs
        · rw [acquireEndpoint_lifted]
          exact hknown
        · rw [acquireEndpoint_lifted] at hid
          exact hm served (congrArg _ hid)
    · cases hs
  | lock sid' t' =>
    simp only [Direct.step] at hs
    simp only [consults] at hc
    split at hs
    · next leg c _ hl hpend =>
      split at hc
      · next index hl' =>
        rw [hl] at hl'
        cases hl'
        split at hc
        · cases hc
        · next hknown =>
          simp only [Option.some.injEq, Prod.mk.injEq] at hc
          obtain ⟨rfl, rfl, rfl, rfl⟩ := hc
          exact locked_refused (x := x.lifted sid' t') hknown
            (fun served hid => hm served (congrArg _ hid)) hs
      · cases hc
    · cases hs
  | reply sid' t' r =>
    simp only [Direct.step] at hs
    simp only [consults] at hc
    split at hs
    · next leg c hl hpend =>
      split at hc
      · next index hl' =>
        rw [hl] at hl'
        cases hl'
        simp only [Option.some.injEq, Prod.mk.injEq] at hc
        obtain ⟨rfl, rfl, rfl, rfl⟩ := hc
        exact replied_refused (x := x.lifted sid' t') hm hs
      · cases hc
    · cases hs
  | begin | resume | release => cases hc

/-! ## 7. The endpoints -/

/-- In turn, of `k` bindings each of `n` endpoints gets its share, some of them one more. -/
theorem count_turns {n : Nat} (hi : i < n) (k : Nat) :
    ((List.range k).map (· % n)).count i = k / n + if i < k % n then 1 else 0 := by
  have hn : 0 < n := Nat.lt_of_le_of_lt (Nat.zero_le i) hi
  have hcount : ((List.range k).map (· % n)).count i = Nat.count (· ≡ i [MOD n]) k := by
    induction k with
    | zero => rfl
    | succ k ih =>
      simp only [List.range_succ, List.map_append, List.map_singleton, List.count_append, ih,
        List.count_singleton, Nat.count_succ, Nat.ModEq, Nat.mod_eq_of_lt hi, beq_iff_eq]
  rw [hcount, Nat.count_modEq_card _ hn, Nat.mod_eq_of_lt hi]

/-- What a direct provider keeps. -/
structure Directs (cfg : DirectConfig) (serves : Nat → String) (x : Direct) : Prop where
  /-- token ids went to endpoints whose discovered model has the pinned model's profile -/
  matched : ∀ p ∈ x.posts, p.endpoint < cfg.roots.length ∧
    x.modelIds p.endpoint = .str (serves p.endpoint) ∧
    cfg.Matched (serves p.endpoint) p.pinned
  /-- and what does not match is sent nothing -/
  refused : ∀ (e : DirectEvent) (z : Direct) (sid : String) (t i : Nat)
    (found : Except PyError Json), x.step cfg e = some z →
    x.consults cfg e = some (sid, t, i, found) →
    (∀ served, found = .ok (.str served) →
      ¬ cfg.Matched served (x.provider.sessionModels.get? sid)) → x.Refuses z sid t
  /-- between two releases a stream has one endpoint -/
  sticky : ∀ p ∈ x.posts, ∀ q ∈ x.posts, p.sid = q.sid → p.epoch = q.epoch →
    p.endpoint = q.endpoint
  turns : ∀ k i, x.bindings[k]? = some i → i = k % cfg.roots.length
  balanced : ∀ i j, i < cfg.roots.length → j < cfg.roots.length →
    x.bindings.count i ≤ x.bindings.count j + 1

/-- **Token ids go to matching endpoints only, a stream stays on its endpoint, and the bindings
    take turns**, in every run of any number of streams. -/
theorem direct_endpoints (cfg : DirectConfig) (serves : Nat → String)
    (h : Steps (step cfg) (fun x e _ => Regular cfg serves x e) start x) : Directs cfg serves x := by
  have hx : Routed cfg serves x :=
    h.inv (.start cfg serves) fun _ _ _ hx hs hr => hx.step hs hr
  refine ⟨fun p hp => ?_, fun e z sid t i found hs hc hm => consults_refused hs hc hm, hx.sticky,
    fun k i hk => ?_, fun i j hi hj => ?_⟩
  · obtain ⟨served, hid, hm⟩ := (hx.sent p hp).matched
    obtain rfl := hx.honest _ _ hid
    exact ⟨(hx.sent p hp).endpoint, hid, hm⟩
  · rw [hx.turns, List.getElem?_map] at hk
    obtain ⟨k', hk', rfl⟩ := Option.map_eq_some_iff.mp hk
    obtain ⟨-, rfl⟩ := List.getElem?_eq_some_iff.mp hk'
    rw [List.getElem_range]
  · rw [hx.turns, count_turns hi, count_turns hj]
    split <;> split <;> omega

/-- Two vLLM endpoints that serve a model the mapping knows by its base name. -/
def twoEndpoints : DirectConfig where
  base := { silentConfig with transport := .directVllm }
  direct := .inr rfl
  roots := ["http://a", "http://b"]
  nonempty := by decide
  mapping := [("m", "p")]
  profileOf := fun profile => .ok profile
  intText := fun _ => none

/-- A call of a stream, up to its post. -/
def servedCall (sid : String) (models : Json) : List DirectEvent :=
  [.begin sid { repeatedArgs with sessionId := some sid }, .resume sid 0 .nothing,
    .resume sid 0 .nothing, .resume sid 0 .nothing, .resume sid 0 .nothing,
    .resume sid 0 (.replays 0), .resume sid 0 .nothing, .resume sid 0 .nothing, .enter sid 0,
    .lock sid 0, .reply sid 0 (.ok models)]

def servedModels : Json := .obj [("data", .arr [.obj [("id", .str "models/m")]])]

/-- One stream has its tokens sent, the discovery for another one fails. -/
theorem direct_endpoints_two :
    ∃ x, RolloutProxy.exec (step twoEndpoints) (fun _ _ _ => true) start
        (servedCall "s-a" servedModels ++ servedCall "s-b" (.obj [])) = some x ∧
      x.posts.length = 1 ∧ Directs twoEndpoints (fun _ => "models/m") x := by
  have hrun : (RolloutProxy.exec (step twoEndpoints) (fun _ _ _ => true) start
      (servedCall "s-a" servedModels ++ servedCall "s-b" (.obj []))).map (·.posts.length) =
      some 1 := by decide +kernel
  obtain ⟨x, hx, hposts⟩ := Option.map_eq_some_iff.mp hrun
  have hreports : ∀ i, Reports twoEndpoints (fun _ => "models/m") i servedModels := by
    intro i served h
    exact (Json.str.inj (Except.ok.inj h)).symm
  have hfails : ∀ i, Reports twoEndpoints (fun _ => "models/m") i (.obj []) := by
    intro i served h
    cases h
  refine ⟨x, hx, hposts, direct_endpoints _ _ (exec_steps_forall hx fun e he s _ => ?_)⟩
  simp only [servedCall, List.cons_append, List.nil_append, List.mem_cons, List.not_mem_nil,
    or_false] at he
  rcases he with rfl | rfl | rfl | rfl | rfl | rfl | rfl | rfl | rfl | rfl | rfl | rfl | rfl |
    rfl | rfl | rfl | rfl | rfl | rfl | rfl | rfl | rfl <;>
    first
    | trivial
    | exact fun i _ => hreports i
    | exact fun i _ => hfails i

end Direct

end RolloutProxy
