/-
  File:      RolloutProxy/Provider/Outcome.lean
  Subject:   THE OUTCOME OF A GENERATION, for every state, request and answer of the engine.

  * A result that passes the validation is well formed and pairs tokens and logprobs as the body
    does (`callEngine_wellFormed`).
  * **`generate_outcome`**: a generation raises and leaves every stream, or re-serves the
    committed turn, or finds its stream released, or commits one well-formed turn whose prompt is
    the list that was sent.
-/
import RolloutProxy.Provider.Effects
import RolloutProxy.Engine.Pairing
import RolloutProxy.Recorder.Recorder

namespace RolloutProxy

/-! ## 1. The validation -/

/-- A completion that pairs its tokens and logprobs as a body of dialect `d` does, where that body
    reports no abort. -/
structure WellFormed (d : Dialect) (body : Json) (ids : List Int) (lps : List PyFloat)
    (reason : String) : Prop where
  nonempty : ids ≠ []
  nonneg : ∀ t ∈ ids, 0 ≤ t
  aligned : lps.length = ids.length
  finite : ∀ x ∈ lps, x.isFinite = true
  paired : ∀ i, (ids.zip lps)[i]? = pairAt d body i
  reason : reason = "stop" ∨ reason = "length"
  notAborted : ¬ReportsAbort d body

theorem finiteLogprobs_ok {sid : String} : ∀ {lps xs : List PyFloat},
    finiteLogprobs sid (lps.map .float) = .ok xs → xs = lps ∧ ∀ x ∈ xs, x.isFinite = true
  | [], xs, h => by
      cases h
      exact ⟨rfl, by simp⟩
  | y :: lps, xs, h => by
      obtain ⟨x, hx, h⟩ := bind_ok h
      obtain ⟨rest, hrest, h⟩ := bind_ok h
      cases h
      obtain ⟨rfl, hf⟩ := finiteLogprobs_ok hrest
      have hxf := finiteLogprob_isFinite hx
      have hxy : x = y := by
        have hv := finiteLogprob_ok hx
        simp only [Json.asFloat] at hv
        split at hv
        · exact (Option.some.inj hv).symm
        · cases hv
      subst hxy
      refine ⟨rfl, fun z hz => ?_⟩
      rcases List.mem_cons.mp hz with rfl | hz
      · exact hxf
      · exact hf z hz

/-- Only `stop`, `length` and `abort` come out. -/
theorem normalizeFinishReason_ok {stopReason : Json} {n : Nat} {budget : Json} {reason : String}
    (h : normalizeFinishReason stopReason n budget = .ok reason) :
    reason = "stop" ∨ reason = "length" ∨ reason = "abort" := by
  unfold normalizeFinishReason at h
  split at h
  · cases h
  · split at h
    · cases h; exact .inl rfl
    · cases h; exact .inr (.inl rfl)
    · cases h; exact .inr (.inr rfl)
    · split at h
      · split at h
        · cases h; exact .inr (.inl rfl)
        · cases h; exact .inl rfl
      · cases h; exact .inl rfl

theorem isTokenId_ints {ids : List Int} (h : (ids.map Json.int).all isTokenId = true) :
    ∀ t ∈ ids, 0 ≤ t := by
  intro t ht
  simpa [isTokenId] using List.all_eq_true.mp h (.int t) (List.mem_map_of_mem ht)

theorem intsOf_ints : ∀ ids : List Int, intsOf (ids.map .int) = ids
  | [] => rfl
  | n :: ids => congrArg (n :: ·) (intsOf_ints ids)

/-- What passes is nonempty, aligned, finite and not an abort; nothing is converted on the way. -/
theorem checkResult_ok {sid : String} {result : EngineResult} {budget : Json} {ids₀ ids : List Int}
    {lps₀ lps : List PyFloat} {reason : String} (hi : result.tokenIds = .arr (ids₀.map .int))
    (hl : result.logProbs = .arr (lps₀.map .float))
    (h : checkResult sid result budget = .ok (ids, lps, reason)) :
    ids = ids₀ ∧ lps = lps₀ ∧ ids ≠ [] ∧ (∀ t ∈ ids, 0 ≤ t) ∧ lps.length = ids.length ∧
      (∀ x ∈ lps, x.isFinite = true) ∧ (reason = "stop" ∨ reason = "length") ∧
      result.stopReason ≠ .str "abort" := by
  unfold checkResult at h
  rw [hi, hl] at h
  obtain ⟨r, hr, h⟩ := bind_ok h
  simp only at h
  split at h
  · cases h
  next hab =>
  split at h
  · cases h
  next hne =>
  split at h
  · cases h
  next hlen =>
  split at h
  · cases h
  next hall =>
  obtain ⟨xs, hxs, h⟩ := bind_ok h
  cases h
  obtain ⟨rfl, hf⟩ := finiteLogprobs_ok hxs
  rw [intsOf_ints]
  refine ⟨rfl, rfl, ?_, isTokenId_ints (by simpa using hall), by simpa using hlen, hf, ?_, ?_⟩
  · rintro rfl
    exact hne rfl
  · rcases normalizeFinishReason_ok hr with h | h | h
    · exact .inl h
    · exact .inr h
    · exact absurd h hab
  · intro hstop
    rw [hstop] at hr
    cases hr
    exact hab rfl

/-! ## 2. The call -/

theorem clamped_ok {call call' : EngineCall} {endpoint : String} {window : Option Int}
    (h : call.clamped endpoint window = .ok call') :
    call'.promptIds = call.promptIds ∧ call'.returnLogprob = call.returnLogprob := by
  obtain ⟨params, hp, h⟩ := bind_ok h
  cases h
  refine ⟨rfl, ?_⟩
  unfold clampToContextWindow at hp
  unfold EngineCall.returnLogprob
  split at hp
  · cases hp; rfl
  · simp only at hp
    split at hp
    · cases hp
    · split at hp
      · cases hp
        simp only [Fields.get_set_ne _ _ (show "logprobs" ≠ "max_tokens" by decide)]
      · cases hp; rfl

/-- Setting other fields keeps a field. -/
theorem foldl_set_get (params : Fields) (key : String) : ∀ (keys : List String) (d : Fields),
    key ∉ keys → (keys.foldl (fun (d : Fields) k =>
      if (params.get k).isNull then d else d.set k (params.get k)) d).get key = d.get key
  | [], d, _ => rfl
  | k :: keys, d, h => by
      simp only [List.mem_cons, not_or] at h
      rw [List.foldl_cons, foldl_set_get params key keys _ h.2]
      split
      · rfl
      · exact Fields.get_set_ne _ _ h.1

/-- **Each dialect sends the prompt as it was built.** -/
theorem request_prompt (d : Dialect) (served : String) (call : EngineCall) :
    (d.request served call).field d.promptField = .arr (call.promptIds.map .int) := by
  cases d with
  | sglang => rfl
  | vllm => rfl
  | completions => exact foldl_set_get call.params "prompt" _ _ (by decide)

/-- **An accepted answer is a well-formed turn** of the body it came in. -/
theorem callEngine_wellFormed {d : Dialect} {py : PyText} {npLoad : NpLoad} {call : EngineCall}
    {answer : EngineAnswer} {result : EngineResult} {params : Fields} {sid : String}
    {ids : List Int} {lps : List PyFloat} {reason : String} (hlp : call.returnLogprob = true)
    (h : d.callEngine py npLoad call answer = .ok (result, params))
    (hr : checkResult sid result (params.get "max_tokens") = .ok (ids, lps, reason)) :
    ∃ endpoint served window body req, answer = .answered endpoint served window body ∧
      WellFormed d body ids lps reason ∧ d.posted call answer = some req ∧
      req.field d.promptField = .arr (call.promptIds.map .int) := by
  unfold Dialect.callEngine at h
  cases answer with
  | raised e => cases h
  | answered endpoint served window body =>
    obtain ⟨call', hc, h⟩ := bind_ok h
    obtain ⟨res, hres, h⟩ := bind_ok h
    cases h
    obtain ⟨hprompt, hret⟩ := clamped_ok hc
    obtain ⟨ids₀, lps₀, hi, hl, hread⟩ := read_pairs (hret.trans hlp) hres
    obtain ⟨rfl, rfl, hne, hnn, hlen, hfin, hreason, hstop⟩ := checkResult_ok hi hl hr
    refine ⟨endpoint, served, window, body, d.request served call', rfl,
      ⟨hne, hnn, hlen, hfin, ?_, hreason, fun ha => hstop (read_reportsAbort hres ha)⟩, ?_, ?_⟩
    · rcases hread with h | ⟨_, h⟩
      · exact absurd h hne
      · exact h
    · simp only [Dialect.posted, hc]
    · rw [request_prompt, hprompt]

theorem withParam_get {params : Fields} {key key' : String} {v : Json} (h : key' ≠ key) :
    (Provider.withParam params key v).get key' = params.get key' := by
  unfold Provider.withParam
  split
  · rfl
  · exact Fields.get_set_ne _ _ h

/-- Every call asks for logprobs. -/
theorem callFor_returnLogprob {cfg : ProviderConfig} {p : Provider} {r : ResolvedModel}
    {sid : String} {a : GenerateArgs} {effort : Option String} {ids : List Int} {c : Pending}
    (h : p.callFor cfg r sid a effort ids = .ok c) : c.call.returnLogprob = true := by
  unfold Provider.callFor at h
  split at h
  · cases h
  · next params hp =>
    cases h
    have hlog : (applyTemperatureFloor (p.assembledParams cfg r a)).get "logprobs" = .bool true := by
      have hbase : (p.assembledParams cfg r a).get "logprobs" = .bool true := by
        unfold Provider.assembledParams
        simp only
        rw [withParam_get (by decide), withParam_get (by decide), withParam_get (by decide)]
        exact Fields.get_set_self _ _ _
      unfold applyTemperatureFloor
      split
      · split
        · rw [Fields.get_set_ne _ _ (by decide), hbase]
        · exact hbase
      · exact hbase
    unfold Provider.samplingParams at hp
    simp only at hp
    split at hp
    · cases hp
    · split at hp
      · cases hp
        simp only [EngineCall.returnLogprob, hlog, Json.truthy]
      · cases hp
        simp only [EngineCall.returnLogprob, Fields.get_set_ne _ _
          (show "logprobs" ≠ "stop_token_ids" by decide), hlog, Json.truthy]

theorem beginGenerate_returnLogprob {cfg : ProviderConfig} {p q : Provider} {a : GenerateArgs}
    {c : Pending} (h : p.beginGenerate cfg a = (.ok (.calling c), q)) :
    c.call.returnLogprob = true := by
  rcases Provider.beginGenerate_cases h with ⟨⟨e, he⟩, _⟩ | ⟨sid, r, effort, p₁, _, _, _, _, hb⟩
  · cases he
  · rcases hb with ⟨turn, _, hb⟩ | ⟨p₂, _, _, hb⟩
    · unfold Provider.replayed at hb
      split at hb <;> cases hb
    · unfold Provider.beginCall at hb
      split at hb
      · cases hb
      · cases hb
      · split at hb
        · cases hb
        · simp only [Prod.mk.injEq] at hb
          obtain ⟨_, hc, e⟩ := map_ok hb.1
          cases e
          exact callFor_returnLogprob hc

/-! ## 3. A generation in the proxy -/

/-- What a turn works on: the provider's streams and the recorder. -/
structure Proxy where
  provider : Provider
  recorder : SessionRecorder

/-- `generate`; `meanwhile` is what other tasks do to the proxy while the engine works. -/
def Proxy.generate (cfg : ProviderConfig) (x : Proxy) (a : GenerateArgs)
    (meanwhile : Proxy → Proxy) (answer : EngineAnswer) : Except PyError Generated × Proxy :=
  match x.provider.beginGenerate cfg a with
  | (.error e, p) => (.error e, { x with provider := p })
  | (.ok (.replayed g), p) => (.ok g, { x with provider := p })
  | (.ok (.calling c), p) =>
    let y := meanwhile { x with provider := p }
    let finished := y.provider.finishGenerate cfg c answer
    (finished.1, { y with provider := finished.2 })

/-- Every stream and the record are as they were. -/
def Undisturbed (x y : Proxy) : Prop :=
  SameStreams x.provider y.provider ∧ y.recorder = x.recorder

/-- The generation has reached its engine call, from `x` to `x₁`. -/
def AtCall (cfg : ProviderConfig) (x : Proxy) (a : GenerateArgs) (x₁ : Proxy) (c : Pending) : Prop :=
  x.provider.beginGenerate cfg a = (.ok (.calling c), x₁.provider) ∧ Undisturbed x x₁

/-- The request repeats the turn its stream ended with, and gets that turn: one more replay is
    counted, nothing is committed. -/
def ReServes (x y : Proxy) (a : GenerateArgs) (g : Generated) : Prop :=
  y.recorder = x.recorder ∧ ∃ sid profile st last text, a.sessionId = some sid ∧
    ReplayCounted x.provider y.provider profile sid st ∧ st.lastTurn = some last ∧
    g = ⟨dropLastN last.completionLen st.stream, lastN last.completionLen st.stream,
      last.logProbs, last.finishReason, text, last.engineMeta⟩

/-- Exactly one turn is committed, on the stream of the call: well formed for the body the engine
    returned, with the prompt that was sent. -/
def CommitsTurn (cfg : ProviderConfig) (c : Pending) (answer : EngineAnswer) (x y : Proxy)
    (g : Generated) : Prop :=
  y.recorder = x.recorder ∧
  (∃ endpoint served window body req, answer = .answered endpoint served window body ∧
    WellFormed cfg.transport.dialect body g.tokenIds g.logProbs g.finishReason ∧
    cfg.transport.dialect.posted c.call answer = some req ∧
    req.field cfg.transport.dialect.promptField = .arr (g.promptIds.map .int)) ∧
  Provider.Committed x.provider y.provider c ⟨g.tokenIds, g.logProbs, g.finishReason, g.engineMeta⟩ ∧
  g.promptIds = c.call.promptIds

theorem finishGenerate_cases {cfg : ProviderConfig} {p q : Provider} {c : Pending}
    {answer : EngineAnswer} {g : Except PyError Generated} (hlp : c.call.returnLogprob = true)
    (h : p.finishGenerate cfg c answer = (g, q)) :
    ((∃ e, g = .error e) ∧ SameStreams p q) ∨
      (p.sessionModels.contains c.sid = false ∧ (∃ g', g = .ok g') ∧ SameStreams p q) ∨
      ∃ g', g = .ok g' ∧ ∀ r : SessionRecorder, CommitsTurn cfg c answer ⟨p, r⟩ ⟨q, r⟩ g' := by
  unfold Provider.finishGenerate at h
  split at h
  · next e p' ha =>
    cases h
    exact .inl ⟨⟨e, rfl⟩, (Provider.acceptAnswer_streams ha).1⟩
  · next s p' ha =>
    obtain ⟨hs, hpins⟩ := Provider.acceptAnswer_streams ha
    split at h
    · cases h
      exact .inl ⟨⟨_, rfl⟩, hs⟩
    · next text ht =>
      rcases Provider.commitSampled_cases h with ⟨hpin, hg, rfl⟩ | ⟨he, rfl⟩ | ⟨_, hc, rfl⟩
      · exact .inr (.inl ⟨by rw [← hpins]; exact hpin, hg, hs⟩)
      · exact .inl ⟨he, hs⟩
      · refine .inr (.inr ⟨_, rfl, fun r => ⟨rfl, ?_, ?_, rfl⟩⟩)
        · unfold Provider.acceptAnswer at ha
          split at ha
          · cases ha
          · next result params hcall =>
            simp only at ha
            split at ha
            · cases ha
            · next ids lps reason hcheck =>
              cases ha
              exact callEngine_wellFormed hlp hcall hcheck
        · -- the answer left the manager as it was, so the commit counts from there
          have hm : p'.manager c.model.profile.name = p.manager c.model.profile.name := by
            unfold Provider.acceptAnswer at ha
            split at ha
            · cases ha
            · simp only at ha
              split at ha
              · cases ha
              · cases ha
                rfl
          obtain ⟨⟨normalized, hn, hst⟩, honce, hothers⟩ := hc
          refine ⟨⟨normalized, hn, by rw [hst, hm]⟩, by rw [honce, hm], fun k sid x hne hx => ?_⟩
          rw [← hs]
          exact hothers k sid x hne hx

/-- **Only well-formed turns are committed, and a failed generation changes nothing.**
    A repeat of the last turn is re-served (the count of its replays is all that changes, also
    where its tokens cannot be decoded any more), and a turn whose stream was released while the
    engine worked is returned without being committed. -/
theorem generate_outcome (cfg : ProviderConfig) (x : Proxy) (a : GenerateArgs)
    (meanwhile : Proxy → Proxy) (answer : EngineAnswer) :
    let out := x.generate cfg a meanwhile answer
    (∃ e, out.1 = .error e ∧ (Undisturbed x out.2 ∨
      (out.2.recorder = x.recorder ∧ ∃ sid profile st, a.sessionId = some sid ∧
        ReplayCounted x.provider out.2.provider profile sid st))) ∨
    (∃ g, out.1 = .ok g ∧ ReServes x out.2 a g) ∨
    ∃ x₁ c, AtCall cfg x a x₁ c ∧ a.sessionId = some c.sid ∧ c.messages = a.messages ∧
      c.tools = a.tools ∧
      ((∃ e, out.1 = .error e ∧ Undisturbed (meanwhile x₁) out.2) ∨
        ((meanwhile x₁).provider.sessionModels.contains c.sid = false ∧ (∃ g, out.1 = .ok g) ∧
          Undisturbed (meanwhile x₁) out.2) ∨
        ∃ g, out.1 = .ok g ∧ CommitsTurn cfg c answer (meanwhile x₁) out.2 g) := by
  intro out
  have hout : out = x.generate cfg a meanwhile answer := rfl
  unfold Proxy.generate at hout
  split at hout
  · next e p hb =>
    rw [hout]
    refine .inl ⟨e, rfl, ?_⟩
    rcases Provider.beginGenerate_error hb with hs | hr
    · exact .inl ⟨hs, rfl⟩
    · exact .inr ⟨rfl, hr⟩
  · next g p hb =>
    rw [hout]
    obtain ⟨sid, profile, st, last, text, hsid, hr, hlast, hg, _⟩ :=
      Provider.beginGenerate_replayed hb
    exact .inr (.inl ⟨g, rfl, rfl, sid, profile, st, last, text, hsid, hr, hlast, hg⟩)
  · next c p hb =>
    obtain ⟨hs, hsid, _, hm, ht, _, _⟩ := Provider.beginGenerate_calling hb
    refine .inr (.inr ⟨{ x with provider := p }, c, ⟨hb, hs, rfl⟩, hsid, hm, ht, ?_⟩)
    rw [hout]
    rcases finishGenerate_cases (beginGenerate_returnLogprob hb) (Prod.eta _).symm with
      ⟨⟨e, he⟩, hq⟩ | ⟨hpin, hg, hq⟩ | ⟨g, hg, hc⟩
    · exact .inl ⟨e, he, hq, rfl⟩
    · exact .inr (.inl ⟨hpin, hg, hq, rfl⟩)
    · exact .inr (.inr ⟨g, hg, hc _⟩)

/-! ## 4. A repeated request -/

/-- A tokenizer that renders and decodes nothing. -/
def silentTokenizer : Tokenizer where
  applyChatTemplate _ _ _ := .ok (.arr [])
  renderText _ := .ok ""
  encode _ := .ok (.arr [])
  decode _ := .ok ""

def silentModel : ResolvedModel where
  profile := ⟨"m", "", "", [], [], none, none, [], []⟩
  tokenizer := silentTokenizer
  toolParser := none
  samplingDefaults := []

def silentConfig : ProviderConfig where
  resolve _ := .ok silentModel
  transport := .sglangGenerate
  samplingOverrides := []
  returnRoutedExperts := false
  py := ⟨fun _ => "", fun _ => ""⟩
  npLoad _ := none

def askedMessages : List Fields := [[("role", .str "user"), ("content", .str "hi")]]

/-- A stream behind one committed turn: prompt `[1]`, completion `[2]`. -/
def committedOnce : SessionState where
  stream := [1, 2]
  messages := askedMessages
  lastTurn := some ⟨0, 1, [.finite 0], "stop", .empty, none, .null⟩
  replays := 0
  tools := []
  reasoningEffort := none

def committedProxy : Proxy where
  provider :=
    { Provider.empty with
      sessionModels := Dict.empty.set "s-a" "m"
      managers := Dict.empty.set "m" ⟨Dict.empty.set "s-a" committedOnce, ∅, 1⟩ }
  recorder := .empty

def repeatedArgs : GenerateArgs where
  messages := askedMessages
  sessionId := some "s-a"
  model := some "m"
  temperature := .null
  topP := .null
  topK := .null
  minP := .null
  maxTokens := .int defaultMaxTokens
  stop := .null
  tools := .null
  repetitionPenalty := .null
  presencePenalty := .null
  frequencyPenalty := .null
  routedExpertsPrior := none
  seed := .null
  stopTokenIds := .null
  reasoningEffort := .null

/-- Where a generation begun for a request stands. -/
def Began.isReplay : Began → Bool
  | .replayed _ => true
  | .calling _ => false

/-- A repeated request neither raises nor commits. -/
theorem generate_replay_commits_nothing :
    let out := committedProxy.generate silentConfig repeatedArgs id (.raised (.other ""))
    ¬((∃ e, out.1 = .error e ∧ Undisturbed committedProxy out.2) ∨
      ∃ x₁ c g, AtCall silentConfig committedProxy repeatedArgs x₁ c ∧ out.1 = .ok g ∧
        CommitsTurn silentConfig c (.raised (.other "")) x₁ out.2 g) := by
  intro out h
  have hb : (match (committedProxy.provider.beginGenerate silentConfig repeatedArgs).1 with
      | .ok b => b.isReplay
      | .error _ => false) = true := by decide +kernel
  rcases h with ⟨e, he, _⟩ | ⟨x₁, c, g, ⟨hc, _⟩, _⟩
  · have hout : out = committedProxy.generate silentConfig repeatedArgs id (.raised (.other "")) := rfl
    unfold Proxy.generate at hout
    split at hout
    · next hbegin => rw [hbegin] at hb; cases hb
    · rw [hout] at he; cases he
    · next hbegin => rw [hbegin] at hb; cases hb
  · rw [hc] at hb
    cases hb

end RolloutProxy
