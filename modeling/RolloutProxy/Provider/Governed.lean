/-
  File:      RolloutProxy/Provider/Governed.lean
  Subject:   A PUSHED POLICY AND EVERY LATER SAMPLE: `set_runtime_sampling_overrides` and `generate`
             (rollout_base.py) of any number of streams, the pipeline's parse and record steps
             (service.py), the client's push (`synchronize`, client.py).

  * `samplingParams_agrees`: what is assembled agrees with the policy in force.
  * `KeepsTurns`: no piece of a call but a commit gives a stream another turn.
  * `Rollouts`: calls on all streams side by side, over one provider. Its history notes what each
    call handed to its transport, and which call sampled what a call serves.
  * `Traced`, `Rollouts.Traced.step`: served and recorded parameters are those handed over.
  * `policy_governs`: from a push on, until the next one, the policy governs.
-/
import RolloutProxy.Provider.Release
import RolloutProxy.Provider.Parse
import RolloutProxy.Engine.Policy
import RolloutProxy.Recorder.Alignment
import RolloutProxy.Recorder.Dump
import RolloutProxy.Service.Ids
import RolloutProxy.Training.Collector

namespace RolloutProxy

/-! ## 1. The policy in force -/

namespace Provider

variable (cfg : ProviderConfig) (p : Provider)

/-- `get_sampling_overrides()["effective"]`. -/
def effective : Fields := applyTemperatureFloor (p.overrides cfg)

/-- `get_sampling_overrides`. -/
def getSamplingOverrides : Fields :=
  [("config", .obj cfg.samplingOverrides), ("runtime", .obj p.runtimeSampling),
    ("effective", .obj (p.effective cfg))]

/-- `PUT /sampling_overrides`: a refused body leaves the layer. -/
def putSampling (overrides : Json) : Provider :=
  match p.setRuntimeSampling cfg overrides with
  | .error _ => p
  | .ok q => q

/-- `synchronize` with a sampling control, from the client's check to its check of the answer. -/
def synchronize (sampling : Json) : Except String Fields × Provider :=
  match validateControls cfg.py sampling with
  | .error e => (.error e, p)
  | .ok sampling =>
    match p.setRuntimeSampling cfg (.obj sampling) with
    | .error e => (.error e, p)
    | .ok q => ((checkSamplingResponse (q.getSamplingOverrides cfg) sampling).map
        fun _ => q.getSamplingOverrides cfg, q)

variable {cfg p}

theorem setRuntimeSampling_ok {q : Provider} {overrides : Json}
    (h : p.setRuntimeSampling cfg overrides = .ok q) :
    ∃ layer, validateSamplingOverrides cfg.py "sampling_overrides" overrides = .ok layer ∧
      q = { p with runtimeSampling := layer } := by
  obtain ⟨layer, hl, h⟩ := bind_ok h
  exact ⟨layer, hl, (Except.ok.inj h).symm⟩

/-- A successful push leaves the runtime layer it was called with. -/
theorem synchronize_ok {sampling : Json} {payload : Fields}
    (h : (p.synchronize cfg sampling).1 = .ok payload) :
    ∃ fields, sampling = .obj fields ∧ (∀ e ∈ fields, e.1 ∈ samplingParamKeys) ∧
      (p.synchronize cfg sampling).2 = { p with runtimeSampling := samplingOf fields } := by
  unfold synchronize at h ⊢
  cases hc : validateControls cfg.py sampling with
  | error e =>
    rw [hc] at h
    cases h
  | ok layer =>
    rw [hc] at h
    obtain ⟨fields, rfl⟩ : ∃ fields, sampling = .obj fields := by
      cases sampling with
      | obj fields => exact ⟨fields, rfl⟩
      | _ => cases hc
    obtain ⟨layer', hl, hc⟩ := bind_ok hc
    obtain ⟨_, -, hc⟩ := bind_ok hc
    cases hc
    obtain ⟨hall, rfl⟩ := validateSamplingOverrides_iff.mp hl
    simp only at h ⊢
    cases hq : p.setRuntimeSampling cfg (.obj (samplingOf fields)) with
    | error e =>
      rw [hq] at h
      cases h
    | ok q =>
      obtain ⟨layer, hlayer, rfl⟩ := setRuntimeSampling_ok hq
      obtain ⟨-, rfl⟩ := validateSamplingOverrides_iff.mp hlayer
      refine ⟨fields, rfl, fun e he => (hall e he).1, ?_⟩
      rw [samplingOf_idem]

/-- A policy over the config layer, key by key. -/
theorem overrides_get (hl : IsLayer p.runtimeSampling) (key : String) :
    Fields.get (p.overrides cfg) key =
      if Fields.has p.runtimeSampling key then Fields.get p.runtimeSampling key
      else Fields.get cfg.samplingOverrides key :=
  Fields.update_get hl.once

end Provider

/-! ## 2. What is assembled -/

section Assembly

variable {cfg : ProviderConfig} {p : Provider} {r : ResolvedModel} {a : GenerateArgs}

/-- Parameters with a value under a key. -/
def HoldsAt (params : Fields) (key : String) (v : Json) : Prop :=
  Fields.has params key = true ∧ Fields.get params key = v

theorem HoldsAt.set {params : Fields} {key other : String} {v : Json} (h : HoldsAt params key v)
    (hne : key ≠ other) (w : Json) : HoldsAt (Fields.set params other w) key v :=
  ⟨by rw [Fields.has_set, h.1, Bool.or_true], by rw [Fields.get_set_ne _ _ hne, h.2]⟩

theorem HoldsAt.withParam {params : Fields} {key other : String} {v : Json}
    (h : HoldsAt params key v) (hne : key ≠ other) (w : Json) :
    HoldsAt (Provider.withParam params other w) key v := by
  unfold Provider.withParam
  split
  · exact h
  · exact h.set hne w

/-- The overrides are merged in last; what is set behind them are no distribution keys. -/
theorem assembled_holds (hl : IsLayer (p.overrides cfg)) {key : String}
    (hkey : Fields.has (p.overrides cfg) key = true) :
    HoldsAt (p.assembledParams cfg r a) key (Fields.get (p.overrides cfg) key) := by
  have hk : key ∈ samplingParamKeys := hl.keys _ (Json.entry_of_has hkey)
  have hne : ∀ other, other ∉ samplingParamKeys → key ≠ other := fun _ hother e => hother (e ▸ hk)
  unfold Provider.assembledParams
  refine (((HoldsAt.set (HoldsAt.set ⟨?_, ?_⟩ (hne _ (by decide)) _) (hne _ (by decide)) _).withParam
    (hne _ (by decide)) _).withParam (hne _ (by decide)) _).withParam (hne _ (by decide)) _
  · rw [Fields.update_has, hkey, Bool.or_true]
  · rw [Fields.update_get hl.once, if_pos hkey]

/-- **The policy in force wins** over the request, the bundle and the engine's default. -/
theorem samplingParams_agrees (hl : IsLayer (p.overrides cfg)) {params : Fields}
    (h : p.samplingParams cfg r a = .ok params) : AgreesWith (p.effective cfg) params := by
  have hfloor : AgreesWith (p.effective cfg) (applyTemperatureFloor (p.assembledParams cfg r a)) :=
    agrees_of_update hl fun _ hkey => assembled_holds hl hkey
  unfold Provider.samplingParams at h
  simp only at h
  split at h
  · cases h
  · split at h
    · cases h
      exact hfloor
    · cases h
      intro e he
      have hne : e.1 ≠ "stop_token_ids" := fun heq => by
        have hk := hl.floor.keys e he
        rw [heq] at hk
        revert hk
        decide
      exact HoldsAt.set (hfloor e he) hne _

/-- A call is made with the parameters assembled for it, and a snapshot of their distribution. -/
theorem callFor_agrees (hl : IsLayer (p.overrides cfg)) {sid : String} {effort : Option String}
    {ids : List Int} {c : Pending} (h : p.callFor cfg r sid a effort ids = .ok c) :
    c.sid = sid ∧ c.sampling = samplingOf c.call.params ∧
      AgreesWith (p.effective cfg) c.call.params := by
  unfold Provider.callFor at h
  split at h
  · cases h
  · next params hp =>
    cases h
    exact ⟨rfl, rfl, samplingParams_agrees hl hp⟩

end Assembly

/-! ## 3. The turns the streams end with -/

/-- The metadata of the turn a stream ends with. -/
def TokenStreamManager.turnMeta (m : TokenStreamManager) (sid : String) : Option EngineMeta :=
  (m.sessions.get? sid).bind fun st => st.lastTurn.map (·.engineMeta)

/-- The runtime layer is the same, and no stream has got another turn. -/
structure KeepsTurns (p q : Provider) : Prop where
  sampling : q.runtimeSampling = p.runtimeSampling
  turns : ∀ profile sid m, (q.manager profile).turnMeta sid = some m →
    (p.manager profile).turnMeta sid = some m

namespace KeepsTurns

variable {cfg : ProviderConfig} {p q r : Provider}

theorem refl (p : Provider) : KeepsTurns p p := ⟨rfl, fun _ _ _ h => h⟩

theorem of_same (h : Same p q) : KeepsTurns p q :=
  ⟨h.runtimeSampling, fun profile sid m hm => by rw [← h.manager]; exact hm⟩

theorem of_managers (h : q.managers = p.managers) (hs : q.runtimeSampling = p.runtimeSampling) :
    KeepsTurns p q :=
  ⟨hs, fun profile sid m hm => by unfold Provider.manager at hm ⊢; rw [← h]; exact hm⟩

theorem setManager {profile : String} {m : TokenStreamManager}
    (h : ∀ sid x, m.turnMeta sid = some x → (p.manager profile).turnMeta sid = some x) :
    KeepsTurns p (p.setManager profile m) where
  sampling := rfl
  turns := fun k sid x hx => by
    rw [Provider.manager_setManager] at hx
    split at hx
    · next hk =>
      rw [hk]
      exact h sid x hx
    · exact hx

/-- A manager with the same streams. -/
theorem setManager_get? {profile : String} {m : TokenStreamManager}
    (h : ∀ sid, m.sessions.get? sid = (p.manager profile).sessions.get? sid) :
    KeepsTurns p (p.setManager profile m) :=
  setManager fun sid x hx => by
    unfold TokenStreamManager.turnMeta at hx ⊢
    rw [← h]
    exact hx

theorem releaseSession (p : Provider) (sid : String) : KeepsTurns p (p.releaseSession sid) where
  sampling := rfl
  turns := fun profile s m hm => by
    unfold Provider.manager at hm ⊢
    simp only [Provider.releaseSession, Dict.get?_map] at hm
    cases hp : p.managers.get? profile with
    | none =>
      rw [hp] at hm
      exact hm
    | some manager =>
      rw [hp] at hm
      simp only [Option.map_some, Option.getD_some, TokenStreamManager.turnMeta,
        TokenStreamManager.drop_get?] at hm ⊢
      split at hm
      · cases hm
      · exact hm

theorem serveFound (c : ManagerConfig) (m : TokenStreamManager) {sid : String}
    {found : Option SessionState} {messages : List Fields} {effort : Option String} {gone : Nat}
    (s : String) : (m.serveFound c sid found messages effort gone).2.turnMeta s = m.turnMeta s := by
  unfold TokenStreamManager.serveFound
  split
  · rfl
  · rfl
  · split
    · split
      · rfl
      · next now hnow =>
        split
        · rfl
        · next m' hm =>
          obtain ⟨-, -, -, hget⟩ := TokenStreamManager.spendReplay_ok _ _ hm
          unfold TokenStreamManager.turnMeta
          rw [hget]
          split
          · next hs =>
            rw [hs, hnow]
            rfl
          · rfl
    · split <;> rfl

theorem parseCompletion (p : Provider) (sid : Option String) (ids : List Int)
    (text reason : String) (tools : Json) (callId : Nat → String) :
    KeepsTurns p (p.parseCompletion cfg sid ids text reason tools callId).2 := by
  have hparsed : ∀ (m : TokenStreamManager) (s : String) (id : Nat) (result : ParsedCompletion)
      (k : String), (m.setParsed s id result).turnMeta k = m.turnMeta k := by
    intro m s id result k
    unfold TokenStreamManager.setParsed
    split
    · rfl
    · next st hst =>
      split
      · rfl
      · next turn hturn =>
        split
        · unfold TokenStreamManager.turnMeta
          rw [Dict.get?_set]
          split
          · next hk =>
            rw [hk, hst, Option.bind_some, Option.bind_some, hturn]
            rfl
          · rfl
        · rfl
  unfold Provider.parseCompletion
  split
  · exact refl p
  · split
    · exact refl p
    · simp only
      split
      · exact refl p
      · split
        · exact refl p
        · unfold Provider.parseWith
          simp only
          split
          · exact refl p
          · split
            · exact refl p
            · split
              · exact refl p
              · split
                · exact refl p
                · exact setManager fun s x hx => by rw [← hparsed]; exact hx

end KeepsTurns

/-- One commit on the stream of `c`: it ends with the turn of `s`, the others with theirs. -/
structure CommitsMeta (p q : Provider) (c : Pending) (s : Sampled) : Prop where
  sampling : q.runtimeSampling = p.runtimeSampling
  own : ∀ m, (q.manager c.model.profile.name).turnMeta c.sid = some m → m = s.engineMeta
  others : ∀ profile sid m, (profile, sid) ≠ (c.model.profile.name, c.sid) →
    (q.manager profile).turnMeta sid = some m → (p.manager profile).turnMeta sid = some m

theorem commitsMeta {p q : Provider} {c : Pending} {s : Sampled} (h : Provider.Committed p q c s)
    (hs : q.runtimeSampling = p.runtimeSampling) : CommitsMeta p q c s where
  sampling := hs
  own := fun m hm => by
    obtain ⟨normalized, -, hst⟩ := h.state
    unfold Provider.streamState at hst
    unfold TokenStreamManager.turnMeta at hm
    rw [hst] at hm
    unfold Provider.committedState at hm
    cases hids : s.tokenIds with
    | nil => simp [hids] at hm
    | cons t l =>
      simp only [hids, Option.bind_some, Option.map_some, Option.some.injEq] at hm
      exact hm.symm
  others := fun profile sid m hne hm => by
    unfold TokenStreamManager.turnMeta at hm ⊢
    obtain ⟨st, hst, hm⟩ := Option.bind_eq_some_iff.mp hm
    have hp : (p.manager profile).sessions.get? sid = some st := h.others profile sid st hne hst
    rw [hp]
    exact hm

/-! ## 4. Where a piece of a call leads -/

/-- Where the pieces lead that commit nothing. -/
inductive Leads (cfg : ProviderConfig) (p : Provider) (sid : String) : Stage → Next → Prop where
  | fails (stage : Stage) (e : PyError) : Leads cfg p sid stage (.ended (.error e))
  | read (pinned : Option String) : Leads cfg p sid .resolving (.awaits (.pinRead pinned))
  | resolved (pinned : Option String) (r : ResolvedModel) (effort : Option String) :
      Leads cfg p sid (.pinRead pinned) (.awaits (.looking r effort))
  | looked (r : ResolvedModel) (effort : Option String) :
      Leads cfg p sid (.looking r effort)
        (.awaits (.looked r effort ((p.manager r.profile.name).sessions.get? sid)))
  | missed (r : ResolvedModel) (effort : Option String) (found : Option SessionState) :
      Leads cfg p sid (.looked r effort found) (.awaits (.missed r effort))
  | hit (r : ResolvedModel) (effort : Option String) (st : SessionState) (turn : CommittedTurn)
      (h : st.lastTurn = some turn) :
      Leads cfg p sid (.looked r effort (some st))
        (.awaits (.serving r (TokenStreamManager.replayOf st turn)))
  | served (r : ResolvedModel) (turn : ReplayedTurn) (g : Generated)
      (h : g.engineMeta = turn.engineMeta) : Leads cfg p sid (.serving r turn) (.ended (.ok g))
  | unrejected (r : ResolvedModel) (effort : Option String) :
      Leads cfg p sid (.missed r effort) (.awaits (.building r effort))
  | built (r : ResolvedModel) (effort : Option String) (c : Pending) (hsid : c.sid = sid)
      (hsampling : c.sampling = samplingOf c.call.params)
      (hagrees : AgreesWith (p.effective cfg) c.call.params) :
      Leads cfg p sid (.building r effort) (.awaits (.calling c))
  | answered (c : Pending) (s : Sampled) (h : s.engineMeta.samplingParams = some c.sampling) :
      Leads cfg p sid (.calling c) (.awaits (.decoding c s))
  | released (c : Pending) (s : Sampled) (g : Generated) (h : g.engineMeta = s.engineMeta)
      (hpin : p.sessionModels.contains c.sid = false) :
      Leads cfg p sid (.decoding c s) (.ended (.ok g))

/-- The piece that commits. -/
def LeadsToCommit (p q : Provider) (stage : Stage) (n : Next) : Prop :=
  ∃ c s g, stage = .decoding c s ∧ n = .ended (.ok g) ∧ g.engineMeta = s.engineMeta ∧
    p.sessionModels.contains c.sid = true ∧ CommitsMeta p q c s

section Pieces

variable {cfg : ProviderConfig} {p q : Provider} {sid : String} {g : Generation} {n : Next}

theorem afterPin_leads {pinned : Option String} (h : p.afterPin cfg sid g pinned = (n, q)) :
    Leads cfg p sid (.pinRead pinned) n ∧ KeepsTurns p q := by
  have hpin : ∀ pin, KeepsTurns p (p.setPin sid pin) := fun pin => by
    cases pin <;> exact .of_managers rfl rfl
  unfold Provider.afterPin at h
  split at h
  · cases h
    exact ⟨.fails _ _, .refl p⟩
  · split at h
    · cases h
      exact ⟨.fails _ _, hpin _⟩
    · cases h
      exact ⟨.resolved _ _ _, hpin _⟩

theorem afterLookup_leads {r : ResolvedModel} {effort : Option String}
    {found : Option SessionState} {gone : Nat}
    (h : p.afterLookup sid g r effort found gone = (n, q)) :
    Leads cfg p sid (.looked r effort found) n ∧ KeepsTurns p q := by
  have hkeep : KeepsTurns p (p.setManager r.profile.name
      ((p.manager r.profile.name).serveFound r.streams sid found g.args.messages effort gone).2) :=
    .setManager fun s x hx => by rw [← KeepsTurns.serveFound]; exact hx
  -- a hit is the turn of the found state
  have hhit : ∀ turn, ((p.manager r.profile.name).serveFound r.streams sid found g.args.messages
      effort gone).1 = .ok (some turn) → ∃ st last, found = some st ∧ st.lastTurn = some last ∧
        turn = TokenStreamManager.replayOf st last := by
    intro turn hturn
    unfold TokenStreamManager.serveFound at hturn
    split at hturn
    · cases hturn
    · cases hturn
    · next st last hr =>
      obtain ⟨hst, hlast, -, -⟩ := TokenStreamManager.repeatedTurn_some hr
      refine ⟨st, last, hst, hlast, ?_⟩
      split at hturn
      · split at hturn
        · cases hturn
        · split at hturn <;> cases hturn
          rfl
      · split at hturn <;> cases hturn
        rfl
  unfold Provider.afterLookup at h
  split at h
  · next heq =>
    cases h
    rw [heq] at hkeep
    exact ⟨.fails _ _, hkeep⟩
  · next heq =>
    cases h
    rw [heq] at hkeep
    exact ⟨.missed _ _ _, hkeep⟩
  · next heq =>
    cases h
    rw [heq] at hkeep hhit
    obtain ⟨st, last, rfl, hlast, rfl⟩ := hhit _ rfl
    exact ⟨.hit _ _ st last hlast, hkeep⟩

theorem afterBuild_leads {r : ResolvedModel} {effort : Option String}
    (hl : IsLayer (p.overrides cfg)) (h : p.afterBuild cfg sid g r effort = (n, q)) :
    Leads cfg p sid (.building r effort) n ∧ KeepsTurns p q := by
  have hkeep : KeepsTurns p (p.buildPrompt r sid g.args.messages g.args.tools effort).2 :=
    .setManager_get? fun s => TokenStreamManager.buildPrompt_get? _ _ _ _ _ _ s
  have hsame : (p.buildPrompt r sid g.args.messages g.args.tools effort).2.effective cfg =
      p.effective cfg := rfl
  have hlayer : IsLayer
      ((p.buildPrompt r sid g.args.messages g.args.tools effort).2.overrides cfg) := hl
  unfold Provider.afterBuild at h
  split at h
  · next heq =>
    cases h
    rw [heq] at hkeep
    exact ⟨.fails _ _, hkeep⟩
  · next heq =>
    rw [heq] at hkeep hsame hlayer
    split at h
    · cases h
      exact ⟨.fails _ _, hkeep⟩
    · next c hc =>
      cases h
      obtain ⟨hsid, hsampling, hagrees⟩ := callFor_agrees hlayer hc
      rw [hsame] at hagrees
      exact ⟨.built _ _ c hsid hsampling hagrees, hkeep⟩

theorem afterAnswer_leads {c : Pending} {a : EngineAnswer} (h : p.afterAnswer cfg c a = (n, q)) :
    Leads cfg p sid (.calling c) n ∧ KeepsTurns p q := by
  have hnoted : ∀ e, KeepsTurns p (p.noteEngineRejection c.sid c.messages e c.effort).2 := by
    intro e
    refine .of_managers (Provider.noteEngineRejection_managers _ _ _ _) ?_
    unfold Provider.noteEngineRejection
    split
    · rfl
    · split <;> rfl
  have hclear : KeepsTurns p (p.clearRejection c.sid) := .of_managers rfl rfl
  unfold Provider.afterAnswer Provider.acceptAnswer at h
  split at h
  · next heq =>
    cases h
    split at heq
    · cases heq
      exact ⟨.fails _ _, hnoted _⟩
    · simp only at heq
      split at heq <;> cases heq
      exact ⟨.fails _ _, hclear⟩
  · next heq =>
    cases h
    split at heq
    · cases heq
    · simp only at heq
      split at heq <;> cases heq
      exact ⟨.answered c _ rfl, hclear⟩

theorem commitSampled_runtimeSampling (p : Provider) (c : Pending) (s : Sampled) (text : String) :
    (p.commitSampled c s text).2.runtimeSampling = p.runtimeSampling := by
  unfold Provider.commitSampled
  simp only
  split
  · rfl
  · split <;> rfl

theorem afterDecode_leads {c : Pending} {s : Sampled} (h : p.afterDecode c s = (n, q)) :
    (Leads cfg p sid (.decoding c s) n ∧ KeepsTurns p q) ∨
      LeadsToCommit p q (.decoding c s) n := by
  unfold Provider.afterDecode at h
  split at h
  · cases h
    exact .inl ⟨.fails _ _, .refl p⟩
  · next text _ =>
    have hs := commitSampled_runtimeSampling p c s text
    cases hout : p.commitSampled c s text with
    | mk res q' =>
      rw [hout] at h hs
      cases h
      rcases Provider.commitSampled_cases hout with ⟨hpin, ⟨g, rfl⟩, rfl⟩ | ⟨⟨e, rfl⟩, rfl⟩ |
        ⟨hpin, hc, rfl⟩
      · refine .inl ⟨.released c s g ?_ hpin, .refl _⟩
        unfold Provider.commitSampled at hout
        simp only [hpin, Bool.not_false, if_true, Prod.mk.injEq, Except.ok.injEq, and_true] at hout
        rw [← hout]
      · exact .inl ⟨.fails _ _, .refl _⟩
      · exact .inr ⟨c, s, _, rfl, rfl, rfl, hpin, commitsMeta hc hs⟩

/-- **What a piece of a call comes to**: it leaves the turns and leads on, or it commits. -/
theorem resume_leads (hl : IsLayer (p.overrides cfg)) {i : Awaited}
    (h : p.resume cfg sid g i = some (n, q)) :
    (Leads cfg p sid g.stage n ∧ KeepsTurns p q) ∨ LeadsToCommit p q g.stage n := by
  unfold Provider.resume at h
  -- each stage has one way on, and only decoding commits
  cases i with
  | nothing =>
    simp only at h
    split at h
    · next hg =>
      cases h
      exact .inl ⟨hg ▸ .read _, .refl p⟩
    · next hg =>
      exact .inl (hg ▸ afterPin_leads (Option.some.inj h))
    · next hg =>
      cases h
      exact .inl ⟨hg ▸ .looked _ _, .refl p⟩
    · next r turn hg =>
      cases h
      refine .inl ⟨?_, .refl p⟩
      rw [hg]
      unfold Provider.served
      split
      · exact .fails _ _
      · exact .served r turn _ rfl
    · next r effort hg =>
      cases h
      refine .inl ⟨?_, .refl p⟩
      rw [hg]
      unfold Provider.afterMiss
      split
      · exact .fails _ _
      · exact .fails _ _
      · exact .unrejected _ _
    · next hg =>
      exact .inl (hg ▸ afterBuild_leads hl (Option.some.inj h))
    · next hg =>
      rw [hg]
      exact afterDecode_leads (Option.some.inj h)
    · cases h
  | replays gone =>
    simp only at h
    split at h
    · next hg =>
      exact .inl (hg ▸ afterLookup_leads (Option.some.inj h))
    · cases h
  | answer a =>
    simp only at h
    split at h
    · next hg =>
      exact .inl (hg ▸ afterAnswer_leads (Option.some.inj h))
    · cases h

end Pieces

/-! ## 5. The history of a run -/

/-- What a call handed to its transport, and the policy in force when it was assembled. -/
structure Handed where
  policy : Fields
  params : Fields

/-- What happened so far; a call is named by its stream and its number there. -/
structure History where
  handed : String × Nat → Option Handed
  /-- the call of the same stream that sampled what a call serves -/
  sampler : String × Nat → Option Nat
  /-- the call whose turn a stream ends with, by profile and stream -/
  committed : String × String → Option Nat
  /-- the calls that sampled the recorded turns of a session -/
  sources : String → List (String × Nat)

namespace History

def empty : History := ⟨fun _ => none, fun _ => none, fun _ => none, fun _ => []⟩

variable (y : History)

/-- A piece of call `t` of a stream has led from its stage to `next`. -/
def led (cfg : ProviderConfig) (p : Provider) (sid : String) (t : Nat) : Stage → Next → History
  | .looking r _, _ =>
    { y with sampler := Function.update y.sampler (sid, t) (y.committed (r.profile.name, sid)) }
  | .building _ _, .awaits (.calling c) =>
    { y with
      handed := Function.update y.handed (sid, t) (some ⟨p.effective cfg, c.call.params⟩)
      sampler := Function.update y.sampler (sid, t) (some t) }
  | .decoding c _, .ended (.ok _) =>
    if p.sessionModels.contains c.sid then
      { y with committed := Function.update y.committed (c.model.profile.name, c.sid) (some t) }
    else y
  | _, _ => y

/-- What an event of a stream's calls adds. -/
def after (cfg : ProviderConfig) (w : StreamCalls) (sid : String) : CallEvent → History
  | .resume t i =>
    match w.calls t with
    | none => y
    | some g =>
      match w.provider.resume cfg sid g i with
      | none => y
      | some (next, _) => y.led cfg w.provider sid t g.stage next
  | _ => y

/-- A turn sampled by call `t` of a stream was recorded, if the record has grown. -/
def recorded (session sid : String) (t : Option Nat) (before now : Nat) : History :=
  match t with
  | none => y
  | some t =>
    if before < now then
      { y with sources := Function.update y.sources session (y.sources session ++ [(sid, t)]) }
    else y

/-- The metadata holds the parameters that call `t` of the stream handed to its transport. -/
def ServedFrom (sid : String) (t : Option Nat) (m : EngineMeta) : Prop :=
  ∃ t₀ h, t = some t₀ ∧ y.handed (sid, t₀) = some h ∧
    m.samplingParams = some (samplingOf h.params)

/-- What is noted of a call at a stage. -/
def Traces (sid : String) (t : Nat) : Stage → Prop
  | .looked _ _ found => y.handed (sid, t) = none ∧ ∀ st turn, found = some st →
      st.lastTurn = some turn → y.ServedFrom sid (y.sampler (sid, t)) turn.engineMeta
  | .serving _ turn => y.handed (sid, t) = none ∧
      y.ServedFrom sid (y.sampler (sid, t)) turn.engineMeta
  | .calling c => c.sid = sid ∧ c.sampling = samplingOf c.call.params ∧
      y.sampler (sid, t) = some t ∧ ∃ h, y.handed (sid, t) = some h ∧ h.params = c.call.params
  | .decoding c s => c.sid = sid ∧ y.sampler (sid, t) = some t ∧
      y.ServedFrom sid (some t) s.engineMeta
  | _ => y.handed (sid, t) = none

/-- Nothing that was handed over is forgotten or replaced. -/
def Extends (z : History) : Prop := ∀ id h, y.handed id = some h → z.handed id = some h

variable {y} {z u : History} {cfg : ProviderConfig} {p q : Provider} {sid : String} {t : Nat}

theorem Extends.refl (y : History) : y.Extends y := fun _ _ h => h

theorem Extends.trans (h : y.Extends z) (h' : z.Extends u) : y.Extends u :=
  fun id x hx => h' id x (h id x hx)

theorem ServedFrom.mono {o : Option Nat} {m : EngineMeta} (h : y.ServedFrom sid o m)
    (hz : y.Extends z) : z.ServedFrom sid o m := by
  obtain ⟨t₀, x, ho, hx, hm⟩ := h
  exact ⟨t₀, x, ho, hz _ _ hx, hm⟩

/-- Another call's stage is traced as it was. -/
theorem Traces.mono {stage : Stage} (h : y.Traces sid t stage) (hz : y.Extends z)
    (hhanded : z.handed (sid, t) = y.handed (sid, t))
    (hsampler : z.sampler (sid, t) = y.sampler (sid, t)) : z.Traces sid t stage := by
  cases stage with
  | looked r effort found =>
    exact ⟨hhanded.trans h.1, fun st turn hf hl => hsampler ▸ (h.2 st turn hf hl).mono hz⟩
  | serving r turn => exact ⟨hhanded.trans h.1, hsampler ▸ h.2.mono hz⟩
  | calling c =>
    obtain ⟨hc, hs, ht, x, hx, hp⟩ := h
    exact ⟨hc, hs, hsampler.trans ht, x, hz _ _ hx, hp⟩
  | decoding c s => exact ⟨h.1, hsampler.trans h.2.1, h.2.2.mono hz⟩
  | _ => exact hhanded.trans h

/-- A piece of a call notes nothing about another one. -/
theorem led_others {stage : Stage} {next : Next} {id : String × Nat} (hid : id ≠ (sid, t)) :
    (y.led cfg p sid t stage next).handed id = y.handed id ∧
      (y.led cfg p sid t stage next).sampler id = y.sampler id := by
  unfold led
  split
  · exact ⟨rfl, Function.update_of_ne hid _ _⟩
  · exact ⟨Function.update_of_ne hid _ _, Function.update_of_ne hid _ _⟩
  · split <;> exact ⟨rfl, rfl⟩
  · exact ⟨rfl, rfl⟩

theorem led_sources {stage : Stage} {next : Next} :
    (y.led cfg p sid t stage next).sources = y.sources := by
  unfold led
  split
  · rfl
  · rfl
  · split <;> rfl
  · rfl

/-- A call hands its parameters over once. -/
theorem led_extends {stage : Stage} {next : Next} (h : y.Traces sid t stage) :
    y.Extends (y.led cfg p sid t stage next) := by
  intro id x hx
  unfold led
  split
  · exact hx
  · have hne : id ≠ (sid, t) := fun e => by
      rw [e] at hx
      rw [show y.handed (sid, t) = none from h] at hx
      cases hx
    exact (Function.update_of_ne hne _ _).trans hx
  · split <;> exact hx
  · exact hx

/-- What a call awaits, or what it served, after a piece of it. -/
def TracesNext (z : History) (sid : String) (t : Nat) : Next → Prop
  | .awaits stage => z.Traces sid t stage
  | .ended (.ok g) => z.ServedFrom sid (z.sampler (sid, t)) g.engineMeta
  | .ended (.error _) => True

/-- The turns that the streams end with come from the calls that committed them. -/
def TracesTurns (y : History) (p : Provider) : Prop :=
  ∀ profile sid m, (p.manager profile).turnMeta sid = some m →
    y.ServedFrom sid (y.committed (profile, sid)) m

/-- **One piece, traced**: what a call is served with comes from the call its history names. -/
theorem traces_leads {stage : Stage} {next : Next} (hl : Leads cfg p sid stage next)
    (hturns : y.TracesTurns p) (h : y.Traces sid t stage) :
    (y.led cfg p sid t stage next).TracesNext sid t next := by
  cases hl with
  | fails stage e => trivial
  | read pinned => exact h
  | resolved pinned r effort => exact h
  | looked r effort =>
    refine ⟨h, fun st turn hst hturn => ?_⟩
    have hm : (p.manager r.profile.name).turnMeta sid = some turn.engineMeta := by
      unfold TokenStreamManager.turnMeta
      rw [hst, Option.bind_some, hturn]
      rfl
    have hsampler : (y.led cfg p sid t (.looking r effort)
        (.awaits (.looked r effort ((p.manager r.profile.name).sessions.get? sid)))).sampler
        (sid, t) = y.committed (r.profile.name, sid) := Function.update_self _ _ _
    rw [hsampler]
    exact hturns _ _ _ hm
  | missed r effort found => exact h.1
  | hit r effort st turn hturn => exact ⟨h.1, h.2 st turn rfl hturn⟩
  | served r turn g hg =>
    change y.ServedFrom sid (y.sampler (sid, t)) g.engineMeta
    rw [hg]
    exact h.2
  | unrejected r effort => exact h
  | built r effort c hsid hsampling hagrees =>
    exact ⟨hsid, hsampling, Function.update_self _ _ _, _, Function.update_self _ _ _, rfl⟩
  | answered c s hs =>
    obtain ⟨hsid, hsampling, ht, x, hx, hparams⟩ := h
    refine ⟨hsid, ht, t, x, rfl, hx, ?_⟩
    rw [hs, hsampling, hparams]
  | released c s g hg hpin =>
    have hy : y.led cfg p sid t (.decoding c s) (.ended (.ok g)) = y := by
      simp only [led, hpin, Bool.false_eq_true, if_false]
    rw [hy]
    change y.ServedFrom sid (y.sampler (sid, t)) g.engineMeta
    rw [hg, h.2.1]
    exact h.2.2

/-- The commit, traced. -/
theorem traces_commit {stage : Stage} {next : Next} (hl : LeadsToCommit p q stage next)
    (hturns : y.TracesTurns p) (h : y.Traces sid t stage) :
    (y.led cfg p sid t stage next).TracesNext sid t next ∧
      (y.led cfg p sid t stage next).TracesTurns q := by
  obtain ⟨c, s, g, rfl, rfl, hg, hpin, hc⟩ := hl
  obtain ⟨rfl, ht, hserved⟩ := h
  have hy : y.led cfg p c.sid t (.decoding c s) (.ended (.ok g)) =
      { y with
        committed := Function.update y.committed (c.model.profile.name, c.sid) (some t) } := by
    simp only [led, hpin, if_true]
  rw [hy]
  refine ⟨?_, fun profile sid m hm => ?_⟩
  · change y.ServedFrom c.sid (y.sampler (c.sid, t)) g.engineMeta
    rw [hg, ht]
    exact hserved
  · change y.ServedFrom sid (Function.update y.committed _ (some t) (profile, sid)) m
    rw [Function.update_apply]
    split
    · next e =>
      cases e
      rw [hc.own m hm]
      exact hserved
    · next hne => exact hturns _ _ _ (hc.others profile sid m hne hm)

/-- Without a commit the streams end with the turns they did. -/
theorem TracesTurns.led (hturns : y.TracesTurns p) (hk : KeepsTurns p q) {stage : Stage}
    {next : Next} (hl : Leads cfg p sid stage next) (h : y.Traces sid t stage) :
    (y.led cfg p sid t stage next).TracesTurns q := by
  have hcommitted : (y.led cfg p sid t stage next).committed = y.committed := by
    cases hl with
    | released c s g hg hpin => simp only [History.led, hpin, Bool.false_eq_true, if_false]
    | fails stage e => cases stage <;> rfl
    | _ => rfl
  intro profile s m hm
  rw [hcommitted]
  exact (hturns profile s m (hk.turns profile s m hm)).mono (led_extends h)

/-- What is handed over agrees with the policy in force. -/
theorem led_agrees {stage : Stage} {next : Next} (hl : Leads cfg p sid stage next)
    (hlayer : IsLayer (p.overrides cfg)) {id : String × Nat} {x : Handed}
    (hx : (y.led cfg p sid t stage next).handed id = some x) :
    y.handed id = some x ∨ (IsLayer x.policy ∧ AgreesWith x.policy x.params) := by
  cases hl with
  | built r effort c hsid hsampling hagrees =>
    simp only [led, Function.update_apply] at hx
    split at hx
    · cases hx
      exact .inr ⟨hlayer.floor, hagrees⟩
    · exact .inl hx
  | fails stage e => cases stage <;> exact .inl hx
  | released c s g hg hpin =>
    simp only [led, hpin, Bool.false_eq_true, if_false] at hx
    exact .inl hx
  | _ => exact .inl hx

end History

/-! ## 6. The machine -/

/-- Calls on any number of streams of one provider, and what is recorded of them. The calls of a
    stream stand beside a provider of their own, which `stream` replaces by the common one. -/
structure Rollouts where
  provider : Provider
  streams : String → StreamCalls
  recorder : SessionRecorder
  history : History

inductive RolloutEvent where
  /-- `PUT /sampling_overrides` -/
  | put (overrides : Json)
  /-- the client's `synchronize` -/
  | synchronize (sampling : Json)
  /-- `PUT /routed_experts` -/
  | capture (enabled : Option Bool)
  /-- a piece of `generate` of a stream, or its release -/
  | call (sid : String) (e : CallEvent)
  /-- `parse_completion` -/
  | parse (sid : String) (ids : List Int) (text reason : String) (tools : Json)
      (callId : Nat → String)
  /-- `record_completion` for what call `t` of the agent returned; the messages, the parsed fields
      and the capture stand in `d` -/
  | record (session agent : String) (t : Nat) (d : Delivery) (now : Rat)
      (fault : Option RecordFault)
  /-- `mark_recording_failed` -/
  | fail (session agent : String) (messages : List Fields) (promptIds ids : List Int) (now : Rat)

/-- A sampling policy is put, or a push is tried. -/
def RolloutEvent.isPut : RolloutEvent → Bool
  | .put _ => true
  | .synchronize _ => true
  | _ => false

/-- What the pipeline records of a generation. -/
def Generated.delivery (g : Generated) (agent : String) (d : Delivery) : Delivery :=
  { d with
    completionText := g.completionText
    tokenIds := g.tokenIds
    logprobs := g.logProbs
    promptTokenIds := g.promptIds
    agentId := some agent
    weightVersion := g.engineMeta.weightVersion
    samplingParams := g.engineMeta.samplingParams }

namespace Rollouts

/-- Nothing has been asked yet. -/
def start : Rollouts := ⟨.empty, fun _ => .start .empty, .empty, .empty⟩

variable (cfg : ProviderConfig) (x : Rollouts)

/-- The calls of a stream, over the common provider. -/
def stream (sid : String) : StreamCalls := { x.streams sid with provider := x.provider }

/-- What call `t` of a stream returned. -/
def result (sid : String) (t : Nat) : Option Generated :=
  match (x.streams sid).returned.find? fun r => r.1 = t with
  | some (_, .ok g) => some g
  | _ => none

/-- The call of a stream that awaits its engine. -/
def awaitsEngine (sid : String) (t : Nat) : Option Pending :=
  match (x.streams sid).calls t with
  | some ⟨_, _, .calling c⟩ => some c
  | _ => none

def step : RolloutEvent → Option Rollouts
  | .put overrides => some { x with provider := x.provider.putSampling cfg overrides }
  | .synchronize sampling => some { x with provider := (x.provider.synchronize cfg sampling).2 }
  | .capture enabled => some { x with provider := x.provider.setRuntimeCapture enabled }
  | .call sid e => ((x.stream sid).step cfg sid e).map fun w =>
      { x with
        provider := w.provider
        streams := Function.update x.streams sid w
        history := x.history.after cfg (x.stream sid) sid e }
  | .parse sid ids text reason tools callId => some { x with
      provider := (x.provider.parseCompletion cfg (some sid) ids text reason tools callId).2 }
  | .record session agent t d now fault =>
    (x.result (streamId session agent) t).map fun g =>
      let recorder := (x.recorder.recordCompletion now session (g.delivery agent d) fault).2
      { x with
        recorder := recorder
        history := x.history.recorded session (streamId session agent)
          (x.history.sampler (streamId session agent, t))
          (x.recorder.sessionFor session).turns.length (recorder.sessionFor session).turns.length }
  | .fail session agent messages promptIds ids now => some { x with
      recorder := (x.recorder.markRecordingFailed now session (some agent) messages promptIds ids).2 }

/-! ## 7. Every run is traced -/

variable {cfg x} {sid : String}

/-- A recorded turn has the parameters its source handed to its transport. -/
def RecordedFrom (y : History) (turn : CompletionRecord) (source : String × Nat) : Prop :=
  ∃ h, y.handed source = some h ∧ turn.samplingParams = some (samplingOf h.params)

/-- What is so in every state. -/
structure Traced (x : Rollouts) : Prop where
  layer : IsLayer x.provider.runtimeSampling
  agrees : ∀ id h, x.history.handed id = some h → IsLayer h.policy ∧ AgreesWith h.policy h.params
  turns : x.history.TracesTurns x.provider
  begun : ∀ sid t, (x.streams sid).started ≤ t →
    (x.streams sid).calls t = none ∧ x.history.handed (sid, t) = none
  stages : ∀ sid t g, (x.streams sid).calls t = some g → x.history.Traces sid t g.stage
  returned : ∀ sid t g, (t, .ok g) ∈ (x.streams sid).returned → t < (x.streams sid).started ∧
    (x.streams sid).calls t = none ∧
    x.history.ServedFrom sid (x.history.sampler (sid, t)) g.engineMeta
  recorded : ∀ session, List.Forall₂ (RecordedFrom x.history)
    (x.recorder.sessionFor session).turns (x.history.sources session)

theorem RecordedFrom.mono {y z : History} (hz : y.Extends z) {turn : CompletionRecord}
    {source : String × Nat} (h : RecordedFrom y turn source) : RecordedFrom z turn source := by
  obtain ⟨x, hx, ht⟩ := h
  exact ⟨x, hz _ _ hx, ht⟩

theorem Traced.start : Traced start where
  layer := .nil
  agrees := fun _ _ h => by cases h
  turns := fun _ _ _ h => by cases h
  begun := fun _ _ _ => ⟨rfl, rfl⟩
  stages := fun _ _ _ h => by cases h
  returned := fun _ _ _ h => by cases h
  recorded := fun _ => .nil

/-- Another provider with the same turns and a layer. -/
theorem Traced.provide (h : Traced x) {q : Provider} (hl : IsLayer q.runtimeSampling)
    (hq : ∀ profile sid m, (q.manager profile).turnMeta sid = some m →
      (x.provider.manager profile).turnMeta sid = some m) : Traced { x with provider := q } :=
  { h with
    layer := hl
    turns := fun profile sid m hm => h.turns profile sid m (hq profile sid m hm) }

/-- An event of one stream's calls keeps what it keeps of that stream. -/
theorem Traced.called (h : Traced x) {w : StreamCalls} {y : History}
    (hlayer : w.provider.runtimeSampling = x.provider.runtimeSampling)
    (hext : x.history.Extends y)
    (hothers : ∀ s t, s ≠ sid → y.handed (s, t) = x.history.handed (s, t) ∧
      y.sampler (s, t) = x.history.sampler (s, t))
    (hsources : y.sources = x.history.sources)
    (hagrees : ∀ id h, y.handed id = some h → IsLayer h.policy ∧ AgreesWith h.policy h.params)
    (hturns : y.TracesTurns w.provider)
    (hbegun : ∀ t, w.started ≤ t → w.calls t = none ∧ y.handed (sid, t) = none)
    (hstages : ∀ t g, w.calls t = some g → y.Traces sid t g.stage)
    (hreturned : ∀ t g, (t, .ok g) ∈ w.returned → t < w.started ∧ w.calls t = none ∧
      y.ServedFrom sid (y.sampler (sid, t)) g.engineMeta) :
    Traced { x with
      provider := w.provider
      streams := Function.update x.streams sid w
      history := y } where
  layer := by rw [hlayer]; exact h.layer
  agrees := hagrees
  turns := hturns
  begun := fun s t ht => by
    simp only [Function.update_apply] at ht ⊢
    split at ht
    · next hs =>
      rw [hs, if_pos rfl]
      exact hbegun t ht
    · next hs =>
      rw [if_neg hs, (hothers s t hs).1]
      exact h.begun s t ht
  stages := fun s t g hg => by
    simp only [Function.update_apply] at hg
    split at hg
    · next hs =>
      rw [hs]
      exact hstages t g hg
    · next hs => exact (h.stages s t g hg).mono hext (hothers s t hs).1 (hothers s t hs).2
  returned := fun s t g hr => by
    simp only [Function.update_apply] at hr ⊢
    split at hr
    · next hs =>
      rw [hs, if_pos rfl]
      exact hreturned t g hr
    · next hs =>
      obtain ⟨hlt, hnone, hserved⟩ := h.returned s t g hr
      rw [if_neg hs, (hothers s t hs).2]
      exact ⟨hlt, hnone, hserved.mono hext⟩
  recorded := fun session => by
    rw [hsources]
    exact (h.recorded session).imp fun _ _ hr => hr.mono hext

/-- An event that is noted nowhere. -/
theorem Traced.unnoted (h : Traced x) {w : StreamCalls} (hk : KeepsTurns x.provider w.provider)
    (hbegun : ∀ t, w.started ≤ t → w.calls t = none ∧ x.history.handed (sid, t) = none)
    (hstages : ∀ t g, w.calls t = some g → x.history.Traces sid t g.stage)
    (hreturned : ∀ t g, (t, .ok g) ∈ w.returned → t < w.started ∧ w.calls t = none ∧
      x.history.ServedFrom sid (x.history.sampler (sid, t)) g.engineMeta) :
    Traced { x with
      provider := w.provider
      streams := Function.update x.streams sid w } :=
  h.called hk.sampling (.refl _) (fun _ _ _ => ⟨rfl, rfl⟩) rfl h.agrees
    (fun profile s m hm => h.turns profile s m (hk.turns profile s m hm)) hbegun hstages hreturned

theorem Traced.begin (h : Traced x) (a : GenerateArgs) :
    Traced { x with
      provider := ((x.stream sid).begin sid a).provider
      streams := Function.update x.streams sid ((x.stream sid).begin sid a) } := by
  unfold StreamCalls.begin
  split
  · refine h.unnoted (.refl _) (fun t ht => h.begun sid t (Nat.le_of_succ_le ht)) (h.stages sid)
      fun t g hr => ?_
    rcases List.mem_append.mp hr with hr | hr
    · obtain ⟨hlt, hrest⟩ := h.returned sid t g hr
      exact ⟨Nat.lt_succ_of_lt hlt, hrest⟩
    · cases List.mem_singleton.mp hr
  · refine h.unnoted (.of_same (.sessionLock _ _)) (fun t ht => ?_) (fun t g hg => ?_)
      fun t g hr => ?_
    · have hne : t ≠ (x.streams sid).started := fun e => by
        rw [e] at ht
        exact Nat.not_succ_le_self _ ht
      simp only [stream, Function.update_of_ne hne]
      exact h.begun sid t (Nat.le_of_succ_le ht)
    · simp only [stream, Function.update_apply] at hg
      split at hg
      · next ht =>
        cases hg
        rw [ht]
        exact (h.begun sid _ le_rfl).2
      · exact h.stages sid t g hg
    · obtain ⟨hlt, hnone, hserved⟩ := h.returned sid t g hr
      have hne : t ≠ (x.streams sid).started := hlt.ne
      simp only [stream, Function.update_of_ne hne]
      exact ⟨Nat.lt_succ_of_lt hlt, hnone, hserved⟩

theorem waiting_of {stage : Stage} (h : stage.isWaiting = true) : stage = .waiting := by
  cases stage with
  | waiting => rfl
  | _ => cases h

theorem Traced.acquire (h : Traced x) {t : Nat} {g : Generation}
    (hg : (x.streams sid).calls t = some g) (hw : g.stage.isWaiting = true) :
    Traced { x with
      provider := ((x.stream sid).acquire t g).provider
      streams := Function.update x.streams sid ((x.stream sid).acquire t g) } := by
  have htraced := h.stages sid t g hg
  rw [waiting_of hw] at htraced
  have hne : ∀ {t'}, (x.streams sid).calls t' = none → t' ≠ t := fun hn e => by
    rw [e, hg] at hn
    cases hn
  refine h.unnoted (.refl _) (fun t' ht' => ?_) (fun t' g' hg' => ?_) fun t' g' hr => ?_
  · obtain ⟨hnone, hhanded⟩ := h.begun sid t' ht'
    simp only [StreamCalls.acquire, stream, Function.update_of_ne (hne hnone)]
    exact ⟨hnone, hhanded⟩
  · simp only [StreamCalls.acquire, stream, Function.update_apply] at hg'
    split at hg'
    · next e =>
      cases hg'
      rw [e]
      exact htraced
    · exact h.stages sid t' g' hg'
  · obtain ⟨hlt, hnone, hserved⟩ := h.returned sid t' g' hr
    simp only [StreamCalls.acquire, stream, Function.update_of_ne (hne hnone)]
    exact ⟨hlt, hnone, hserved⟩

/-- A piece of a call, once its outcome and the turns behind it are traced. -/
theorem Traced.after (h : Traced x) {t : Nat} {g : Generation} {next : Next} {q : Provider}
    (hg : (x.streams sid).calls t = some g)
    (hs : q.runtimeSampling = x.provider.runtimeSampling)
    (hagrees : ∀ id h, (x.history.led cfg x.provider sid t g.stage next).handed id = some h →
      IsLayer h.policy ∧ AgreesWith h.policy h.params)
    (hturns : (x.history.led cfg x.provider sid t g.stage next).TracesTurns q)
    (hnext : (x.history.led cfg x.provider sid t g.stage next).TracesNext sid t next) :
    Traced { x with
      provider := ((x.stream sid).after t g (next, q)).provider
      streams := Function.update x.streams sid ((x.stream sid).after t g (next, q))
      history := x.history.led cfg x.provider sid t g.stage next } := by
  have hext : x.history.Extends (x.history.led cfg x.provider sid t g.stage next) :=
    History.led_extends (h.stages sid t g hg)
  have hothers : ∀ s t', (s, t') ≠ (sid, t) →
      (x.history.led cfg x.provider sid t g.stage next).handed (s, t') =
        x.history.handed (s, t') ∧
      (x.history.led cfg x.provider sid t g.stage next).sampler (s, t') =
        x.history.sampler (s, t') := fun _ _ hid => History.led_others hid
  have halive : ∀ {t'}, (x.streams sid).calls t' = none → t' ≠ t := fun hn e => by
    rw [e, hg] at hn
    cases hn
  have hid : ∀ {t'}, t' ≠ t → (sid, t') ≠ (sid, t) := fun hne e => hne (Prod.mk.inj e).2
  have hbegun : ∀ t', (x.streams sid).started ≤ t' → t' ≠ t ∧
      (x.history.led cfg x.provider sid t g.stage next).handed (sid, t') = none := fun t' ht' => by
    obtain ⟨hnone, hhanded⟩ := h.begun sid t' ht'
    exact ⟨halive hnone, (hothers sid t' (hid (halive hnone))).1.trans hhanded⟩
  have hstages : ∀ t' g', t' ≠ t → (x.streams sid).calls t' = some g' →
      (x.history.led cfg x.provider sid t g.stage next).Traces sid t' g'.stage := by
    intro t' g' hne hg'
    obtain ⟨hhanded, hsampler⟩ := hothers sid t' (hid hne)
    exact (h.stages sid t' g' hg').mono hext hhanded hsampler
  have hreturned : ∀ t' g', (t', .ok g') ∈ (x.streams sid).returned →
      t' < (x.streams sid).started ∧ (x.streams sid).calls t' = none ∧
      (x.history.led cfg x.provider sid t g.stage next).ServedFrom sid
        ((x.history.led cfg x.provider sid t g.stage next).sampler (sid, t')) g'.engineMeta := by
    intro t' g' hr
    obtain ⟨hlt, hnone, hserved⟩ := h.returned sid t' g' hr
    rw [(hothers sid t' (hid (halive hnone))).2]
    exact ⟨hlt, hnone, hserved.mono hext⟩
  have hlt : t < (x.streams sid).started := by
    by_contra hle
    exact halive (h.begun sid t (not_lt.mp hle)).1 rfl
  -- the call goes on or returns; every other call of the stream is traced as before
  cases next with
  | awaits stage =>
    refine h.called hs hext (fun s t' hne => hothers s t' fun e => hne (Prod.mk.inj e).1)
      History.led_sources hagrees hturns (fun t' ht' => ?_) (fun t' g' hg' => ?_) fun t' g' hr => ?_
    · obtain ⟨hne, hhanded⟩ := hbegun t' ht'
      simp only [StreamCalls.after, stream, Function.update_of_ne hne]
      exact ⟨(h.begun sid t' ht').1, hhanded⟩
    · simp only [StreamCalls.after, stream, Function.update_apply] at hg'
      split at hg'
      · next e =>
        cases hg'
        rw [e]
        exact hnext
      · next hne => exact hstages t' g' hne hg'
    · obtain ⟨hlt', hnone, hserved⟩ := hreturned t' g' hr
      simp only [StreamCalls.after, stream, Function.update_of_ne (halive hnone)]
      exact ⟨hlt', hnone, hserved⟩
  | ended result =>
    refine h.called hs hext (fun s t' hne => hothers s t' fun e => hne (Prod.mk.inj e).1)
      History.led_sources hagrees hturns (fun t' ht' => ?_) (fun t' g' hg' => ?_) fun t' g' hr => ?_
    · obtain ⟨hne, hhanded⟩ := hbegun t' ht'
      simp only [StreamCalls.after, stream, Function.update_of_ne hne]
      exact ⟨(h.begun sid t' ht').1, hhanded⟩
    · simp only [StreamCalls.after, stream, Function.update_apply] at hg'
      split at hg'
      · cases hg'
      · next hne => exact hstages t' g' hne hg'
    · rcases List.mem_append.mp hr with hr | hr
      · obtain ⟨hlt', hnone, hserved⟩ := hreturned t' g' hr
        simp only [StreamCalls.after, stream, Function.update_of_ne (halive hnone)]
        exact ⟨hlt', hnone, hserved⟩
      · obtain ⟨rfl, rfl⟩ := Prod.mk.inj (List.mem_singleton.mp hr)
        refine ⟨hlt, ?_, hnext⟩
        simp only [StreamCalls.after, Function.update_self]

/-- The calls of a stream, one event on. -/
theorem Traced.call (hcfg : IsLayer cfg.samplingOverrides) (h : Traced x) {e : CallEvent}
    {w : StreamCalls} (hs : (x.stream sid).step cfg sid e = some w) :
    Traced { x with
      provider := w.provider
      streams := Function.update x.streams sid w
      history := x.history.after cfg (x.stream sid) sid e } := by
  rcases StreamCalls.step_cases hs with ⟨a, rfl, -, rfl⟩ | ⟨t, g, rfl, hg, hw, -, rfl⟩ |
    ⟨t, i, g, ⟨next, q⟩, rfl, hg, hw, hx, rfl⟩ | ⟨rfl, rfl⟩
  · exact h.begin a
  · have hnoted : x.history.after cfg (x.stream sid) sid (.resume t .nothing) = x.history := by
      simp only [History.after, hg, Provider.resume, waiting_of hw]
    rw [hnoted]
    exact h.acquire hg hw
  · have hnoted : x.history.after cfg (x.stream sid) sid (.resume t i) =
        x.history.led cfg x.provider sid t g.stage next := by
      simp only [History.after, hg, hx]
      rfl
    rw [hnoted]
    have hlayer : IsLayer (x.provider.overrides cfg) := hcfg.update h.layer
    have hstage := h.stages sid t g hg
    rcases resume_leads hlayer hx with ⟨hl, hk⟩ | hc
    · refine h.after hg hk.sampling (fun id y hy => ?_) (h.turns.led hk hl hstage)
        (History.traces_leads hl h.turns hstage)
      rcases History.led_agrees hl hlayer hy with hy | hy
      · exact h.agrees id y hy
      · exact hy
    · obtain ⟨hnext, hturns⟩ :
          (x.history.led cfg x.provider sid t g.stage next).TracesNext sid t next ∧
            (x.history.led cfg x.provider sid t g.stage next).TracesTurns q :=
        History.traces_commit hc h.turns hstage
      obtain ⟨c, s, g', hdecoding, -, -, hpin, hmeta⟩ := hc
      refine h.after hg hmeta.sampling (fun id y hy => ?_) hturns hnext
      rw [hdecoding] at hy
      unfold History.led at hy
      split at hy
      · exact h.agrees id y hy
      · contradiction
      · split at hy <;> exact h.agrees id y hy
      · exact h.agrees id y hy
  · have hk := KeepsTurns.releaseSession x.provider sid
    exact h.unnoted hk (h.begun sid) (h.stages sid) (h.returned sid)

/-- What is recorded stands behind what was. -/
theorem recordCompletion_turns (r : SessionRecorder) (now : Rat) (sid : String) (d : Delivery)
    (fault : Option RecordFault) (k : String) :
    ((r.recordCompletion now sid d fault).2.sessionFor k).turns = (r.sessionFor k).turns ∨
      k = sid ∧ ∃ new messages promptIds, ((r.recordCompletion now sid d fault).2.sessionFor k).turns =
        (r.sessionFor k).turns ++ [d.toRecord new messages promptIds] := by
  have hput : ((r.putSession sid (r.sessionFor sid)).sessionFor k).turns =
      (r.sessionFor k).turns := by
    rw [SessionRecorder.sessionFor_putSession]
    split
    · next hk => rw [hk]
    · rfl
  unfold SessionRecorder.recordCompletion
  split
  · exact .inl rfl
  split
  · exact .inl rfl
  simp only
  split
  · exact .inl hput
  · exact .inl hput
  · next repairs placement _ _ =>
    rw [SessionRecorder.carryOut_turns]
    split
    · next hk =>
      subst hk
      split
      · exact .inl rfl
      · cases placement with
        | duplicate => exact .inl rfl
        | turn new messages promptIds => exact .inr ⟨rfl, new, messages, promptIds, rfl⟩
    · exact .inl rfl

theorem result_mem {t : Nat} {g : Generated} (h : x.result sid t = some g) :
    (t, .ok g) ∈ (x.streams sid).returned := by
  unfold result at h
  split at h
  · next t' g' hfind =>
    cases h
    obtain rfl : t' = t := by simpa using List.find?_some hfind
    exact List.mem_of_find?_eq_some hfind
  · cases h

/-- A record step appends nothing, or one turn with its source. -/
theorem Traced.record (h : Traced x) {session agent : String} {t : Nat} {g : Generated}
    (hg : x.result (streamId session agent) t = some g) (d : Delivery) (now : Rat)
    (fault : Option RecordFault) :
    Traced { x with
      recorder := (x.recorder.recordCompletion now session (g.delivery agent d) fault).2
      history := x.history.recorded session (streamId session agent)
        (x.history.sampler (streamId session agent, t))
        (x.recorder.sessionFor session).turns.length
        ((x.recorder.recordCompletion now session (g.delivery agent d) fault).2.sessionFor
          session).turns.length } := by
  obtain ⟨-, -, t₀, given, ho, hgiven, hm⟩ := h.returned _ t g (result_mem hg)
  rw [ho]
  let recorder := (x.recorder.recordCompletion now session (g.delivery agent d) fault).2
  have hcases := fun k => recordCompletion_turns x.recorder now session (g.delivery agent d) fault k
  by_cases hgrown : (x.recorder.sessionFor session).turns.length <
      (recorder.sessionFor session).turns.length
  · have hy : x.history.recorded session (streamId session agent) (some t₀)
        (x.recorder.sessionFor session).turns.length (recorder.sessionFor session).turns.length =
        { x.history with
          sources := Function.update x.history.sources session
            (x.history.sources session ++ [(streamId session agent, t₀)]) } := if_pos hgrown
    rw [hy]
    refine { h with recorded := fun k => ?_ }
    simp only [Function.update_apply]
    rcases hcases k with hsame | ⟨rfl, new, messages, promptIds, hmore⟩
    · split
      · next hk =>
        rw [hk] at hsame
        exact absurd (congrArg List.length hsame) hgrown.ne'
      · rw [hsame]
        exact h.recorded k
    · rw [if_pos rfl, hmore]
      exact List.rel_append (h.recorded k) (.cons ⟨given, hgiven, hm⟩ .nil)
  · have hy : x.history.recorded session (streamId session agent) (some t₀)
        (x.recorder.sessionFor session).turns.length (recorder.sessionFor session).turns.length =
        x.history := if_neg hgrown
    rw [hy]
    refine { h with recorded := fun k => ?_ }
    rcases hcases k with hsame | ⟨rfl, new, messages, promptIds, hmore⟩
    · rw [hsame]
      exact h.recorded k
    · refine absurd ?_ hgrown
      rw [hmore, List.length_append]
      exact Nat.lt_succ_self _

theorem markRecordingFailed_sessions (r : SessionRecorder) (now : Rat) (sid : String)
    (agent : Option String) (messages : List Fields) (promptIds ids : List Int) :
    (r.markRecordingFailed now sid agent messages promptIds ids).2.sessions = r.sessions := by
  unfold SessionRecorder.markRecordingFailed
  split
  · rfl
  · simp only
    split
    · rfl
    · split <;> rfl

/-- **Every step is traced.** -/
theorem Traced.step (hcfg : IsLayer cfg.samplingOverrides) (h : Traced x) {e : RolloutEvent}
    {z : Rollouts} (hs : x.step cfg e = some z) : Traced z := by
  cases e with
  | put overrides =>
    cases hs
    refine h.provide ?_ ?_
    · unfold Provider.putSampling
      split
      · exact h.layer
      · next q hq =>
        obtain ⟨layer, hl, rfl⟩ := Provider.setRuntimeSampling_ok hq
        exact validateSamplingOverrides_layer hl
    · unfold Provider.putSampling
      split
      · exact fun _ _ _ hm => hm
      · next q hq =>
        obtain ⟨layer, -, rfl⟩ := Provider.setRuntimeSampling_ok hq
        exact fun _ _ _ hm => hm
  | synchronize sampling =>
    cases hs
    have hq : ∀ q, (x.provider.synchronize cfg sampling).2 = q → q = x.provider ∨
        ∃ v layer, validateSamplingOverrides cfg.py "sampling_overrides" v = .ok layer ∧
          q = { x.provider with runtimeSampling := layer } := by
      rintro q rfl
      unfold Provider.synchronize
      split
      · exact .inl rfl
      · next layer _ =>
        split
        · exact .inl rfl
        · next q hq =>
          obtain ⟨layer', hl, rfl⟩ := Provider.setRuntimeSampling_ok hq
          exact .inr ⟨_, layer', hl, rfl⟩
    rcases hq _ rfl with hq | ⟨v, layer, hl, hq⟩
    · rw [hq]
      exact h
    · rw [hq]
      exact h.provide (validateSamplingOverrides_layer hl) fun _ _ _ hm => hm
  | capture enabled =>
    cases hs
    exact h.provide h.layer fun _ _ _ hm => hm
  | call sid e =>
    obtain ⟨w, hw, rfl⟩ := Option.map_eq_some_iff.mp hs
    exact h.call hcfg hw
  | parse sid ids text reason tools callId =>
    cases hs
    have hk : KeepsTurns x.provider
        (x.provider.parseCompletion cfg (some sid) ids text reason tools callId).2 :=
      .parseCompletion _ _ _ _ _ _ _
    exact h.provide (by rw [hk.sampling]; exact h.layer) hk.turns
  | record session agent t d now fault =>
    obtain ⟨g, hg, rfl⟩ := Option.map_eq_some_iff.mp hs
    exact h.record hg d now fault
  | fail session agent messages promptIds ids now =>
    cases hs
    -- a failure that is marked records no turn
    refine { h with recorded := fun k => ?_ }
    rw [SessionRecorder.sessionFor_congr (markRecordingFailed_sessions _ _ _ _ _ _ _) k]
    exact h.recorded k

/-! ## 8. What later steps keep -/

/-- What was handed over, the recorded turns and their sources are as they were, at the front. -/
structure Keeps (x z : Rollouts) : Prop where
  handed : x.history.Extends z.history
  turns : ∀ session, (x.recorder.sessionFor session).turns <+:
    (z.recorder.sessionFor session).turns
  sources : ∀ session, x.history.sources session <+: z.history.sources session

theorem Keeps.refl (x : Rollouts) : Keeps x x :=
  ⟨.refl _, fun _ => List.prefix_refl _, fun _ => List.prefix_refl _⟩

theorem Keeps.of_history {x z : Rollouts} (h : z.history = x.history)
    (hr : z.recorder = x.recorder) : Keeps x z := by
  refine ⟨h ▸ .refl _, fun k => ?_, fun k => ?_⟩
  · rw [hr]
  · rw [h]

theorem Keeps.trans {x z u : Rollouts} (h : Keeps x z) (h' : Keeps z u) : Keeps x u :=
  ⟨h.handed.trans h'.handed, fun k => (h.turns k).trans (h'.turns k),
    fun k => (h.sources k).trans (h'.sources k)⟩

theorem Traced.keeps (h : Traced x) {e : RolloutEvent} {z : Rollouts}
    (hs : x.step cfg e = some z) : Keeps x z := by
  cases e with
  | call sid e =>
    obtain ⟨w, hw, rfl⟩ := Option.map_eq_some_iff.mp hs
    have hled : x.history.Extends (x.history.after cfg (x.stream sid) sid e) ∧
        (x.history.after cfg (x.stream sid) sid e).sources = x.history.sources := by
      unfold History.after
      split
      · next t i =>
        split
        · exact ⟨.refl _, rfl⟩
        · next g hg =>
          split
          · exact ⟨.refl _, rfl⟩
          · exact ⟨History.led_extends (h.stages sid t g hg), History.led_sources⟩
      · exact ⟨.refl _, rfl⟩
    refine ⟨hled.1, fun _ => List.prefix_refl _, fun k => ?_⟩
    rw [hled.2]
  | record session agent t d now fault =>
    obtain ⟨g, hg, rfl⟩ := Option.map_eq_some_iff.mp hs
    refine ⟨fun id y hy => ?_, fun k => ?_, fun k => ?_⟩
    · simp only [History.recorded]
      split
      · exact hy
      · split <;> exact hy
    · rcases recordCompletion_turns x.recorder now session (g.delivery agent d) fault k with
        hsame | ⟨-, new, messages, promptIds, hmore⟩
      · rw [hsame]
      · rw [hmore]
        exact List.prefix_append _ _
    · simp only [History.recorded]
      split
      · exact List.prefix_refl _
      · split
        · simp only [Function.update_apply]
          split
          · next hk =>
            rw [hk]
            exact List.prefix_append _ _
          · exact List.prefix_refl _
        · exact List.prefix_refl _
  | fail session agent messages promptIds ids now =>
    cases hs
    refine ⟨.refl _, fun k => ?_, fun _ => List.prefix_refl _⟩
    rw [SessionRecorder.sessionFor_congr (markRecordingFailed_sessions _ _ _ _ _ _ _) k]
  | put overrides | synchronize sampling | capture enabled | parse sid ids text reason tools callId =>
    cases hs
    exact .of_history rfl rfl

/-- No step but a put changes the runtime layer. -/
theorem step_runtimeSampling {e : RolloutEvent} {z : Rollouts} (hcfg : IsLayer cfg.samplingOverrides)
    (h : Traced x) (hs : x.step cfg e = some z) (he : e.isPut = false) :
    z.provider.runtimeSampling = x.provider.runtimeSampling := by
  cases e with
  | put overrides => cases he
  | synchronize sampling => cases he
  | call sid e =>
    obtain ⟨w, hw, rfl⟩ := Option.map_eq_some_iff.mp hs
    rcases StreamCalls.step_cases hw with ⟨a, rfl, -, rfl⟩ | ⟨t, g, rfl, -, -, -, rfl⟩ |
      ⟨t, i, g, ⟨next, q⟩, rfl, hg, -, hx, rfl⟩ | ⟨rfl, rfl⟩
    · unfold StreamCalls.begin
      split
      · rfl
      · exact (Same.sessionLock _ _).runtimeSampling
    · rfl
    · have hq : q.runtimeSampling = x.provider.runtimeSampling := by
        rcases resume_leads (hcfg.update h.layer) hx with ⟨-, hk⟩ | ⟨c, s, g', -, -, -, -, hmeta⟩
        · exact hk.sampling
        · exact hmeta.sampling
      cases next <;> exact hq
    · rfl
  | parse sid ids text reason tools callId =>
    cases hs
    exact (KeepsTurns.parseCompletion x.provider (some sid) ids text reason tools callId).sampling
  | record session agent t d now fault =>
    obtain ⟨g, hg, rfl⟩ := Option.map_eq_some_iff.mp hs
    rfl
  | capture enabled | fail session agent messages promptIds ids now =>
    cases hs
    rfl

/-- **A call that reaches its engine** was handed what agrees with the policy in force, and this
    is noted. -/
theorem Traced.assembled (hcfg : IsLayer cfg.samplingOverrides) (h : Traced x) {e : RolloutEvent}
    {z : Rollouts} (hs : x.step cfg e = some z) {t : Nat} {c : Pending}
    (hbefore : x.awaitsEngine sid t = none) (hnow : z.awaitsEngine sid t = some c) :
    AgreesWith (x.provider.effective cfg) c.call.params ∧
      z.history.handed (sid, t) = some ⟨x.provider.effective cfg, c.call.params⟩ := by
  have hlayer : IsLayer (x.provider.overrides cfg) := hcfg.update h.layer
  -- a call that another step moves does not come to await its engine
  have hother : (z.streams sid).calls t = (x.streams sid).calls t → False := fun he => by
    unfold awaitsEngine at hbefore hnow
    rw [he, hbefore] at hnow
    cases hnow
  cases e with
  | call other e =>
    obtain ⟨w, hw, rfl⟩ := Option.map_eq_some_iff.mp hs
    by_cases hsid : sid = other
    · subst hsid
      simp only [awaitsEngine, Function.update_self] at hnow
      simp only [Function.update_self] at hother
      rcases StreamCalls.step_cases hw with ⟨a, rfl, -, rfl⟩ | ⟨t', g, rfl, -, -, -, rfl⟩ |
        ⟨t', i, g, ⟨next, q⟩, rfl, hg, -, hx, rfl⟩ | ⟨rfl, rfl⟩
      · cases hcheck : a.check with
        | error e =>
          simp only [StreamCalls.begin, hcheck] at hother
          exact (hother rfl).elim
        | ok checked =>
          simp only [StreamCalls.begin, hcheck, Function.update_apply] at hnow hother
          by_cases ht : t = (x.stream sid).started
          · rw [if_pos ht] at hnow
            cases hnow
          · exact (hother (if_neg ht)).elim
      · simp only [StreamCalls.acquire, Function.update_apply] at hnow hother
        by_cases ht : t = t'
        · rw [if_pos ht] at hnow
          cases hnow
        · exact (hother (if_neg ht)).elim
      · -- the piece leads to the engine, so it was the building one
        have hcalls : t ≠ t' → ((x.stream sid).after t' g (next, q)).calls t =
            (x.streams sid).calls t := fun ht => by
          cases next <;> exact Function.update_of_ne ht _ _
        by_cases ht : t = t'
        · subst ht
          cases next with
          | ended result =>
            simp only [StreamCalls.after, Function.update_self] at hnow
            cases hnow
          | awaits stage =>
            simp only [StreamCalls.after, Function.update_self] at hnow
            obtain rfl : stage = .calling c := by
              split at hnow
              · next heq =>
                cases heq
                cases hnow
                rfl
              · cases hnow
            have hnoted : x.history.after cfg (x.stream sid) sid (.resume t i) =
                x.history.led cfg x.provider sid t g.stage (.awaits (.calling c)) := by
              simp only [History.after, hg, hx]
              rfl
            simp only [hnoted]
            rcases resume_leads hlayer hx with ⟨hl, -⟩ | ⟨_, _, _, -, hn, -⟩
            · generalize g.stage = stage at hl
              cases hl with
              | built r effort c hc hsampling hagrees =>
                exact ⟨hagrees, Function.update_self _ _ _⟩
            · cases hn
        · exact (hother (hcalls ht)).elim
      · exact (hother rfl).elim
    · exact (hother (by simp only [Function.update_of_ne hsid])).elim
  | record session agent t d now fault =>
    obtain ⟨g, hg, rfl⟩ := Option.map_eq_some_iff.mp hs
    exact (hother rfl).elim
  | _ =>
    cases hs
    exact (hother rfl).elim

/-! ## 9. The collector -/

/-- **Turns that hold a policy pass its check**, whatever agents are selected. -/
theorem collected {py : PyText} {policy : Fields} (hl : IsLayer policy) (hne : policy ≠ [])
    {s : SessionRecord} (hturns : ∀ turn ∈ s.turns, ∃ params,
      turn.samplingParams = some (samplingOf params) ∧ AgreesWith policy params)
    (selected : Option (List (Option String))) :
    validateSessionRecord py s.modelDump (.obj policy) .null selected false false false = .ok () := by
  have hexpected : collectorSampling py (.obj policy) = .ok (some (samplingOf policy)) := by
    cases policy with
    | nil => exact absurd rfl hne
    | cons e rest =>
      simp only [collectorSampling, hl.validates, ok_bind]
      rfl
  -- what agrees with the policy has each of its settings, as a number that is equal
  have hpolicy : ∀ {params place}, AgreesWith policy params →
      checkPolicy py place (samplingOf params) (samplingOf policy) = .ok () := by
    intro params place hp
    refine checkPolicy_iff.mpr fun e he => ?_
    have hmem := samplingOf_mem he
    obtain ⟨-, hget⟩ := hp.sampling hl e hmem
    obtain ⟨hfinite, q, hq, -⟩ := hl.values e hmem
    rw [hget]
    exact ⟨hfinite, by rw [Json.pyEq_number hq, hq]; simp [PyFloat.eq]⟩
  have hturn : ∀ turn ∈ s.turns, ∀ i, collectTurn py (.str s.sessionId) selected
      (some (samplingOf policy)) .null i (.obj turn.modelDump) = .ok () := by
    intro turn ht i
    obtain ⟨params, hsampling, hp⟩ := hturns turn ht
    have hagent : agentOf (Fields.get turn.modelDump "agent_id") = some turn.agentId := by
      change agentOf (optStr turn.agentId) = _
      cases turn.agentId <;> rfl
    have htokens : Fields.get turn.modelDump "completion_token_ids" =
        .arr (turn.completionTokenIds.map .int) := rfl
    have hparams : Fields.get turn.modelDump "sampling_params" = .obj (samplingOf params) := by
      change turn.samplingJson = _
      unfold CompletionRecord.samplingJson
      rw [hsampling]
    unfold collectTurn
    simp only [hagent, htokens]
    split
    · rfl
    · split
      · rfl
      · unfold checkSampled
        simp only [hparams, hpolicy hp, ok_bind]
        rfl
      · next hnot => exact absurd rfl (hnot _)
  -- by induction on the turns of the record
  have hall : ∀ (l : List CompletionRecord) (i : Nat), (∀ turn ∈ l, turn ∈ s.turns) →
      collectTurns py (.str s.sessionId) selected (some (samplingOf policy)) .null i
        (l.map fun t => .obj t.modelDump) = .ok () := by
    intro l
    induction l with
    | nil => exact fun _ _ => rfl
    | cons turn l ih =>
      intro i hl'
      obtain ⟨hhead, htail⟩ := List.forall_mem_cons.mp hl'
      rw [List.map_cons]
      unfold collectTurns
      rw [hturn turn hhead i, ok_bind]
      exact ih (i + 1) htail
  unfold validateSessionRecord
  rw [hexpected, ok_bind]
  exact hall s.turns 0 fun _ h => h

/-! ## 10. A policy governs -/

/-- What a pushed policy and the policies in force come to, in a state of a run. -/
structure Governs (cfg : ProviderConfig) (x : Rollouts) : Prop where
  /-- a call that reaches its engine was handed what agrees with the policy in force -/
  assembled : ∀ e z sid t c, x.step cfg e = some z → x.awaitsEngine sid t = none →
    z.awaitsEngine sid t = some c → AgreesWith (x.provider.effective cfg) c.call.params ∧
      z.history.handed (sid, t) = some ⟨x.provider.effective cfg, c.call.params⟩
  /-- a successful push is in force until the next put: each of its keys is in the policy, and in
      what every call is handed, with the pushed value, floored -/
  pushed : ∀ sampling payload x₁ es z, x.step cfg (.synchronize sampling) = some x₁ →
    (x.provider.synchronize cfg sampling).1 = .ok payload →
    exec (step cfg) (fun _ e _ => !e.isPut) x₁ es = some z →
    ∃ fields, sampling = .obj fields ∧ ∀ key, Fields.has fields key = true →
      HoldsAt (z.provider.effective cfg) key (Fields.get (applyTemperatureFloor fields) key) ∧
      ∀ e u sid t c, z.step cfg e = some u → z.awaitsEngine sid t = none →
        u.awaitsEngine sid t = some c →
        HoldsAt c.call.params key (Fields.get (applyTemperatureFloor fields) key)
  /-- what a call was handed agrees with the policy it was assembled under -/
  handed : ∀ id h, x.history.handed id = some h → AgreesWith h.policy h.params
  /-- a generation returns the parameters of the call that sampled its turn -/
  served : ∀ sid t g, x.result sid t = some g →
    x.history.ServedFrom sid (x.history.sampler (sid, t)) g.engineMeta
  /-- a recorded turn has the distribution parameters its source was handed -/
  recorded : ∀ session, List.Forall₂ (RecordedFrom x.history)
    (x.recorder.sessionFor session).turns (x.history.sources session)
  /-- recorded turns sampled under one policy, one of them or all, pass its check -/
  collected : ∀ session policy turns, policy ≠ [] → turns ≠ [] →
    (∀ turn ∈ turns, ∃ source h, (turn, source) ∈
      (x.recorder.sessionFor session).turns.zip (x.history.sources session) ∧
      x.history.handed source = some h ∧ h.policy = policy) →
    ∀ selected, validateSessionRecord cfg.py
      { x.recorder.sessionFor session with turns := turns }.modelDump (.obj policy) .null selected
      false false false = .ok ()
  /-- nothing that happens later changes what was handed over or recorded -/
  kept : ∀ es z, exec (step cfg) (fun _ _ _ => true) x es = some z → Keeps x z

theorem Traced.exec (hcfg : IsLayer cfg.samplingOverrides) (h : Traced x)
    {p : Rollouts → RolloutEvent → Rollouts → Bool} {es : List RolloutEvent} {z : Rollouts}
    (hr : exec (Rollouts.step cfg) p x es = some z) : Traced z :=
  Steps.inv (exec_steps hr) h fun _ _ _ ht hs _ => ht.step hcfg hs

theorem Traced.exec_keeps (hcfg : IsLayer cfg.samplingOverrides) (h : Traced x)
    {p : Rollouts → RolloutEvent → Rollouts → Bool} {es : List RolloutEvent} {z : Rollouts}
    (hr : RolloutProxy.exec (Rollouts.step cfg) p x es = some z) : Keeps x z := by
  refine (Steps.inv (I := fun z => Traced z ∧ Keeps x z) (exec_steps hr) ⟨h, .refl x⟩ ?_).2
  rintro u e v ⟨hu, hk⟩ hs -
  exact ⟨hu.step hcfg hs, hk.trans (hu.keeps hs)⟩

/-- The runtime layer stands until the next put. -/
theorem Traced.exec_runtimeSampling (hcfg : IsLayer cfg.samplingOverrides) (h : Traced x)
    {es : List RolloutEvent} {z : Rollouts}
    (hr : RolloutProxy.exec (Rollouts.step cfg) (fun _ e _ => !e.isPut) x es = some z) :
    z.provider.runtimeSampling = x.provider.runtimeSampling := by
  refine (Steps.inv (I := fun z => Traced z ∧
    z.provider.runtimeSampling = x.provider.runtimeSampling) (exec_steps hr) ⟨h, rfl⟩ ?_).2
  rintro u e v ⟨hu, hsame⟩ hs hput
  exact ⟨hu.step hcfg hs, (step_runtimeSampling hcfg hu hs (by simpa using hput)).trans hsame⟩

/-- A pushed key is in force. -/
theorem effective_pushed {p : Provider} {fields : Fields} (hl : IsLayer p.runtimeSampling)
    (hp : p.runtimeSampling = samplingOf fields) {key : String} (hk : key ∈ samplingParamKeys)
    (hkey : Fields.has fields key = true) :
    HoldsAt (p.effective cfg) key (Fields.get (applyTemperatureFloor fields) key) := by
  have hhas : Fields.has p.runtimeSampling key = true := by rw [hp, samplingOf_has hk, hkey]
  unfold Provider.effective
  refine ⟨?_, ?_⟩
  · rw [floor_has]
    unfold Provider.overrides
    rw [Fields.update_has, hhas, Bool.or_true]
  · rw [floor_get, floor_get, Provider.overrides_get hl, if_pos hhas, hp, samplingOf_get hk hkey]

theorem Traced.governs (hcfg : IsLayer cfg.samplingOverrides) (h : Traced x) : Governs cfg x where
  assembled := fun e z sid t c hs hbefore hnow => h.assembled hcfg hs hbefore hnow
  pushed := by
    intro sampling payload x₁ es z hs hok hr
    obtain ⟨fields, rfl, hkeys, hp⟩ := Provider.synchronize_ok hok
    have h₁ : Traced x₁ := h.step hcfg hs
    have hz : Traced z := h₁.exec hcfg hr
    have hruntime : z.provider.runtimeSampling = samplingOf fields := by
      rw [h₁.exec_runtimeSampling hcfg hr]
      cases hs
      change (x.provider.synchronize cfg (.obj fields)).2.runtimeSampling = _
      rw [hp]
    refine ⟨fields, rfl, fun key hkey => ?_⟩
    have heffective : HoldsAt (z.provider.effective cfg) key
        (Fields.get (applyTemperatureFloor fields) key) :=
      effective_pushed hz.layer hruntime (hkeys _ (Json.entry_of_has hkey)) hkey
    refine ⟨heffective, fun e u sid t c hs hbefore hnow => ?_⟩
    obtain ⟨hagrees, -⟩ := hz.assembled hcfg hs hbefore hnow
    have hfloor : IsLayer (z.provider.effective cfg) := (hcfg.update hz.layer).floor
    obtain ⟨hhas, hget⟩ := (agreesWith_iff hfloor.once).mp hagrees key heffective.1
    exact ⟨hhas, hget.trans heffective.2⟩
  handed := fun id y hy => (h.agrees id y hy).2
  served := fun sid t g hg => (h.returned sid t g (result_mem hg)).2.2
  recorded := h.recorded
  collected := by
    intro session policy turns hne hsome hturns selected
    have hall : ∀ turn ∈ turns, IsLayer policy ∧ ∃ params,
        turn.samplingParams = some (samplingOf params) ∧ AgreesWith policy params := by
      intro turn ht
      obtain ⟨source, y, hzip, hy, rfl⟩ := hturns turn ht
      obtain ⟨hl, hagrees⟩ := h.agrees source y hy
      obtain ⟨y', hy', hsampling⟩ := (List.forall₂_iff_zip.mp (h.recorded session)).2 hzip
      rw [hy] at hy'
      cases hy'
      exact ⟨hl, y.params, hsampling, hagrees⟩
    obtain ⟨turn, ht⟩ := List.exists_mem_of_ne_nil turns hsome
    exact Rollouts.collected (hall turn ht).1 hne (fun turn ht => (hall turn ht).2) selected
  kept := fun es z hr => h.exec_keeps hcfg hr

/-- **A pushed policy governs every later sample.** The config layer is one that `__init__`
    accepts; the requests, the bundled defaults, the engine's answers and the order of all steps
    are any. -/
theorem policy_governs (cfg : ProviderConfig) {config : Json}
    (hconfig : validateSamplingOverrides cfg.py "sampling_overrides" config =
      .ok cfg.samplingOverrides) {es : List RolloutEvent} {x : Rollouts}
    (h : RolloutProxy.exec (step cfg) (fun _ _ _ => true) start es = some x) : Governs cfg x :=
  have hcfg := validateSamplingOverrides_layer hconfig
  (Traced.start.exec hcfg h).governs hcfg

/-! ### A run -/

/-- What a record step says of a turn apart from the generation. -/
def plainFields : Delivery where
  messages := askedMessages
  completionText := ""
  tokenIds := []
  logprobs := []
  finishReason := some "stop"
  promptTokenIds := []
  agentId := none
  content := none
  reasoningContent := none
  toolCalls := none
  weightVersion := none
  routedExperts := .absent
  samplingParams := none

/-- A push, a generation with another push while its engine works, its record, and a retry. -/
def pushedTwice : List RolloutEvent :=
  [.synchronize (.obj [("temperature", .float (.finite 0))]),
    .call "s-a" (.begin repeatedArgs), .call "s-a" (.resume 0 .nothing),
    .call "s-a" (.resume 0 .nothing), .call "s-a" (.resume 0 .nothing),
    .call "s-a" (.resume 0 .nothing), .call "s-a" (.resume 0 (.replays 0)),
    .call "s-a" (.resume 0 .nothing), .call "s-a" (.resume 0 .nothing),
    .put (.obj [("temperature", .float (.finite 1))]),
    .call "s-a" (.resume 0 (.answer StreamCalls.sampledFive)), .call "s-a" (.resume 0 .nothing),
    .record "s" "a" 0 plainFields 0 none,
    .call "s-a" (.begin repeatedArgs), .call "s-a" (.resume 1 .nothing),
    .call "s-a" (.resume 1 .nothing), .call "s-a" (.resume 1 .nothing),
    .call "s-a" (.resume 1 .nothing), .call "s-a" (.resume 1 (.replays 0)),
    .call "s-a" (.resume 1 .nothing)]

/-- The temperature a turn was recorded with. -/
def recordedTemperature (turn : CompletionRecord) : Option PyFloat :=
  turn.samplingParams.bind fun params => (Fields.get params "temperature").number

/-- The record holds the one turn with the first push, floored; the retry is served from its stream. -/
theorem policy_governs_pushedTwice :
    ∃ x, RolloutProxy.exec (step silentConfig) (fun _ _ _ => true) start pushedTwice = some x ∧
      (x.recorder.sessionFor "s").turns.map recordedTemperature = [some (.finite minTemperature)] ∧
      (x.result "s-a" 1).isSome = true ∧ Governs silentConfig x := by
  have hrun : (RolloutProxy.exec (step silentConfig) (fun _ _ _ => true) start pushedTwice).any
      (fun x => decide ((x.recorder.sessionFor "s").turns.map recordedTemperature =
        [some (.finite minTemperature)]) && (x.result "s-a" 1).isSome) = true := by decide +kernel
  have hconfig : validateSamplingOverrides silentConfig.py "sampling_overrides" (.obj []) =
      .ok silentConfig.samplingOverrides := rfl
  obtain ⟨x, hx, hrecord⟩ := (Option.any_eq_true _ _).mp hrun
  simp only [Bool.and_eq_true, decide_eq_true_eq] at hrecord
  exact ⟨x, hx, hrecord.1, hrecord.2, policy_governs silentConfig hconfig hx⟩

end Rollouts

end RolloutProxy
