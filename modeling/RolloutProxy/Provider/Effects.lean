/-
  File:      RolloutProxy/Provider/Effects.lean
  Subject:   WHAT EACH PART OF A GENERATION LEAVES of the stream states.

  * `beginGenerate_calling`: up to the engine call no stream state changes;
  * `beginGenerate_replayed`, `beginGenerate_error`: a hit of the cache spends one replay of the
    turn it serves, also where the tokens cannot be decoded; nothing else changes;
  * `acceptAnswer_streams`: an answer changes no stream state;
  * `commitSampled_cases`: a commit replaces the state of its own stream, and only where the stream
    is still pinned.
-/
import RolloutProxy.Provider.Generate

namespace RolloutProxy

/-- Every stream has the state it had. -/
def SameStreams (p q : Provider) : Prop :=
  ∀ profile sid, q.streamState profile sid = p.streamState profile sid

theorem SameStreams.refl (p : Provider) : SameStreams p p := fun _ _ => rfl

theorem SameStreams.trans {p q r : Provider} (h : SameStreams p q) (h' : SameStreams q r) :
    SameStreams p r := fun profile sid => (h' profile sid).trans (h profile sid)

/-- Equal managers hold equal streams. -/
theorem SameStreams.of_managers {p q : Provider} (h : q.managers = p.managers) :
    SameStreams p q := by
  intro profile sid
  unfold Provider.streamState Provider.manager
  rw [h]

/-- One replay of a stream's turn has been counted, and nothing else. -/
def ReplayCounted (p q : Provider) (profile sid : String) (st : SessionState) : Prop :=
  p.streamState profile sid = some st ∧ st.replays < 4 ∧
    ∀ k s, q.streamState k s =
      if k = profile ∧ s = sid then some { st with replays := st.replays + 1 }
      else p.streamState k s

theorem ReplayCounted.of_same {p p₁ q : Provider} {profile sid : String} {st : SessionState}
    (h : ReplayCounted p₁ q profile sid st) (hs : SameStreams p p₁) :
    ReplayCounted p q profile sid st := by
  obtain ⟨hst, hlt, hget⟩ := h
  exact ⟨by rw [← hs]; exact hst, hlt, fun k s => by rw [hget, hs]⟩

namespace Provider

variable {cfg : ProviderConfig} {p q : Provider}

/-! ## 1. Up to the engine call -/

theorem sessionLock_managers (sid : String) : (p.sessionLock sid).managers = p.managers := by
  unfold sessionLock
  split <;> rfl

theorem sessionLock_sessionModels (sid : String) :
    (p.sessionLock sid).sessionModels = p.sessionModels := by
  unfold sessionLock
  split <;> rfl

theorem sessionLock_rejectedTurns (sid : String) :
    (p.sessionLock sid).rejectedTurns = p.rejectedTurns := by
  unfold sessionLock
  split <;> rfl

/-- Resolving pins the stream, and changes nothing else. -/
theorem resolveForSession_ok {sid : String} {model : Option String} {r : ResolvedModel}
    (h : p.resolveForSession cfg sid model = .ok (r, q)) :
    q.managers = p.managers ∧ q.sessionModels.contains sid = true := by
  unfold resolveForSession at h
  split at h
  · split at h
    · cases h
    · split at h
      · cases h
      · split at h
        · cases h
        · cases h
          exact ⟨rfl, by simp⟩
  · next pinned hp =>
    split at h
    · cases h
    · split at h
      · cases h
      · cases h
        exact ⟨rfl, by simp [hp]⟩

theorem cachedTurn_none {r : ResolvedModel} {sid : String} {messages : List Fields}
    {effort : Option String} (h : p.cachedTurn r sid messages effort = .ok (none, q)) :
    SameStreams p q ∧ q.sessionModels = p.sessionModels := by
  unfold cachedTurn at h
  split at h
  · cases h
  · next turn m hm =>
    cases h
    have he := TokenStreamManager.cachedTurn_miss _ _ hm
    exact ⟨fun k s => streamState_setManager_same p (fun _ => by rw [he]) k s, rfl⟩

/-- A hit serves the stream's committed turn and counts one replay. -/
theorem cachedTurn_some {r : ResolvedModel} {sid : String} {messages : List Fields}
    {effort : Option String} {turn : ReplayedTurn}
    (h : p.cachedTurn r sid messages effort = .ok (some turn, q)) :
    ∃ st last, ReplayCounted p q r.profile.name sid st ∧ st.lastTurn = some last ∧
      turn = TokenStreamManager.replayOf st last ∧ effort = st.reasoningEffort ∧
      ∃ normalized, normalizeMessages messages = .ok normalized ∧
        sameMessages normalized st.messages = true := by
  unfold cachedTurn at h
  split at h
  · cases h
  · next turn' m hm =>
    cases h
    obtain ⟨st, last, hr, rfl, hs⟩ := TokenStreamManager.cachedTurn_hit _ _ hm
    obtain ⟨hst, hlast, heff, hnorm⟩ := TokenStreamManager.repeatedTurn_some hr
    obtain ⟨hlt, _, _, hget⟩ := TokenStreamManager.spendReplay_ok _ _ hs
    refine ⟨st, last, ⟨hst, hlt, fun k s => ?_⟩, hlast, rfl, heff, hnorm⟩
    rw [streamState_setManager]
    by_cases hk : k = r.profile.name
    · subst hk
      simp only [if_pos, hget, true_and, streamState]
    · simp only [hk, false_and, if_false]

theorem buildPrompt_streams (r : ResolvedModel) (sid : String) (messages : List Fields)
    (tools : Json) (effort : Option String) :
    SameStreams p (p.buildPrompt r sid messages tools effort).2 :=
  fun k s => streamState_setManager_same p
    (fun k => TokenStreamManager.buildPrompt_get? _ _ _ _ _ _ k) k s

/-- From the missed cache to the engine call no stream changes, and nothing is re-served. -/
theorem beginCall_effect {r : ResolvedModel} {sid : String} {a : GenerateArgs}
    {effort : Option String} {b : Except PyError Began}
    (h : p.beginCall cfg r sid a effort = (b, q)) :
    SameStreams p q ∧ q.sessionModels = p.sessionModels ∧ ∀ g, b ≠ .ok (.replayed g) := by
  unfold beginCall at h
  split at h
  · cases h
    exact ⟨.refl _, rfl, fun g e => by cases e⟩
  · cases h
    exact ⟨.refl _, rfl, fun g e => by cases e⟩
  · split at h
    · next e p' hb =>
      cases h
      have hs := buildPrompt_streams (p := p) r sid a.messages a.tools effort
      rw [hb] at hs
      exact ⟨hs, congrArg (fun x => x.2.sessionModels) hb.symm, fun g e => by cases e⟩
    · next ids p' hb =>
      cases h
      have hs := buildPrompt_streams (p := p) r sid a.messages a.tools effort
      rw [hb] at hs
      refine ⟨hs, congrArg (fun x => x.2.sessionModels) hb.symm, fun g e => ?_⟩
      obtain ⟨_, _, e⟩ := map_ok e
      cases e

/-- The call of a begun generation holds the request it was begun with. -/
theorem beginCall_calling {r : ResolvedModel} {sid : String} {a : GenerateArgs}
    {effort : Option String} {c : Pending}
    (h : p.beginCall cfg r sid a effort = (.ok (.calling c), q)) :
    c.sid = sid ∧ c.model = r ∧ c.messages = a.messages ∧ c.tools = a.tools ∧ c.effort = effort ∧
      c.call.sid = sid ∧ (p.buildPrompt r sid a.messages a.tools effort).1 = .ok c.call.promptIds := by
  unfold beginCall at h
  split at h
  · cases h
  · cases h
  · split at h
    · cases h
    · next ids p' hb =>
      simp only [Prod.mk.injEq] at h
      obtain ⟨_, hc, e⟩ := map_ok h.1
      cases e
      unfold callFor at hc
      split at hc
      · cases hc
      · cases hc
        exact ⟨rfl, rfl, rfl, rfl, rfl, rfl, congrArg Prod.fst hb⟩

/-! ## 2. `beginGenerate` -/

/-- What `beginGenerate` has found when it reaches the cache. -/
theorem beginGenerate_cases {a : GenerateArgs} {b : Except PyError Began}
    (h : p.beginGenerate cfg a = (b, q)) :
    ((∃ e, b = .error e) ∧ SameStreams p q) ∨
    ∃ sid r effort p₁, a.sessionId = some sid ∧ SameStreams p p₁ ∧
      p₁.sessionModels.contains sid = true ∧ effectiveEffort r a.reasoningEffort = .ok effort ∧
      ((∃ turn, p₁.cachedTurn r sid a.messages effort = .ok (some turn, q) ∧ b = replayed r turn) ∨
        ∃ p₂, SameStreams p p₂ ∧ p₂.sessionModels.contains sid = true ∧
          p₂.beginCall cfg r sid a effort = (b, q)) := by
  unfold beginGenerate at h
  split at h
  · cases h
    exact .inl ⟨⟨_, rfl⟩, .refl _⟩
  · next sid hsid =>
    have hs : a.sessionId = some sid := by
      unfold GenerateArgs.check at hsid
      split at hsid
      · cases hsid
      · next s hs =>
        split at hsid
        · cases hsid
        · cases hsid
        · cases hsid
          exact hs
    have hlock : SameStreams p (p.sessionLock sid) := .of_managers (sessionLock_managers sid)
    simp only at h
    split at h
    · cases h
      exact .inl ⟨⟨_, rfl⟩, hlock⟩
    · next r p₁ hres =>
      obtain ⟨hm, hpin⟩ := resolveForSession_ok hres
      have h₁ : SameStreams p p₁ := hlock.trans (.of_managers hm)
      split at h
      · cases h
        exact .inl ⟨⟨_, rfl⟩, h₁⟩
      · next effort heff =>
        split at h
        · cases h
          exact .inl ⟨⟨_, rfl⟩, h₁⟩
        · next turn p₂ hc =>
          cases h
          exact .inr ⟨sid, r, effort, p₁, hs, h₁, hpin, heff, .inl ⟨turn, hc, rfl⟩⟩
        · next p₂ hc =>
          obtain ⟨h₂, hpins⟩ := cachedTurn_none hc
          exact .inr ⟨sid, r, effort, p₁, hs, h₁, hpin, heff,
            .inr ⟨p₂, h₁.trans h₂, by rw [hpins]; exact hpin, h⟩⟩

/-- **Up to the engine call no stream changes**, and the call is made for the request. -/
theorem beginGenerate_calling {a : GenerateArgs} {c : Pending}
    (h : p.beginGenerate cfg a = (.ok (.calling c), q)) :
    SameStreams p q ∧ a.sessionId = some c.sid ∧ c.call.sid = c.sid ∧ c.messages = a.messages ∧
      c.tools = a.tools ∧ effectiveEffort c.model a.reasoningEffort = .ok c.effort ∧
      q.sessionModels.contains c.sid = true := by
  rcases beginGenerate_cases h with ⟨⟨e, he⟩, _⟩ | ⟨sid, r, effort, p₁, hs, h₁, hpin, heff, hb⟩
  · cases he
  · rcases hb with ⟨turn, _, hb⟩ | ⟨p₂, h₂, hpin₂, hb⟩
    · unfold replayed at hb
      split at hb <;> cases hb
    · obtain ⟨hq, hpins, _⟩ := beginCall_effect hb
      obtain ⟨rfl, rfl, hm, ht, rfl, hc, _⟩ := beginCall_calling hb
      exact ⟨h₂.trans hq, hs, hc, hm, ht, heff, by rw [hpins]; exact hpin₂⟩

/-- **A re-served turn is the committed one** of a request with equal messages and effort. -/
theorem beginGenerate_replayed {a : GenerateArgs} {g : Generated}
    (h : p.beginGenerate cfg a = (.ok (.replayed g), q)) :
    ∃ sid profile st last text, a.sessionId = some sid ∧ ReplayCounted p q profile sid st ∧
      st.lastTurn = some last ∧
      g = ⟨dropLastN last.completionLen st.stream, lastN last.completionLen st.stream,
        last.logProbs, last.finishReason, text, last.engineMeta⟩ ∧
      ∃ normalized, normalizeMessages a.messages = .ok normalized ∧
        sameMessages normalized st.messages = true := by
  rcases beginGenerate_cases h with ⟨⟨e, he⟩, _⟩ | ⟨sid, r, effort, p₁, hs, h₁, _, _, hb⟩
  · cases he
  · rcases hb with ⟨turn, hc, hb⟩ | ⟨p₂, _, _, hb⟩
    · obtain ⟨st, last, hcount, hlast, rfl, _, hnorm⟩ := cachedTurn_some hc
      unfold replayed at hb
      split at hb
      · cases hb
      · next text _ =>
        cases hb
        exact ⟨sid, r.profile.name, st, last, text, hs, hcount.of_same h₁, hlast, rfl, hnorm⟩
    · exact absurd rfl ((beginCall_effect hb).2.2 g)

/-- **A generation that fails before the call** leaves the streams, up to one counted replay. -/
theorem beginGenerate_error {a : GenerateArgs} {e : PyError}
    (h : p.beginGenerate cfg a = (.error e, q)) :
    SameStreams p q ∨ ∃ sid profile st, a.sessionId = some sid ∧
      ReplayCounted p q profile sid st := by
  rcases beginGenerate_cases h with ⟨_, hs⟩ | ⟨sid, r, effort, p₁, hs, h₁, _, _, hb⟩
  · exact .inl hs
  · rcases hb with ⟨turn, hc, hb⟩ | ⟨p₂, h₂, _, hb⟩
    · obtain ⟨st, last, hcount, _⟩ := cachedTurn_some hc
      exact .inr ⟨sid, r.profile.name, st, hs, hcount.of_same h₁⟩
    · exact .inl (h₂.trans (beginCall_effect hb).1)

/-! ## 3. From the answer on -/

theorem noteEngineRejection_managers (sid : String) (messages : List Fields) (e : PyError)
    (effort : Option String) :
    (p.noteEngineRejection sid messages e effort).2.managers = p.managers := by
  unfold noteEngineRejection
  split
  · rfl
  · split <;> rfl

theorem noteEngineRejection_sessionModels (sid : String) (messages : List Fields) (e : PyError)
    (effort : Option String) :
    (p.noteEngineRejection sid messages e effort).2.sessionModels = p.sessionModels := by
  unfold noteEngineRejection
  split
  · rfl
  · split <;> rfl

/-- **An answer changes no stream.** -/
theorem acceptAnswer_streams {c : Pending} {answer : EngineAnswer} {s : Except PyError Sampled}
    (h : p.acceptAnswer cfg c answer = (s, q)) :
    SameStreams p q ∧ q.sessionModels = p.sessionModels := by
  unfold acceptAnswer at h
  split at h
  · cases h
    exact ⟨.of_managers (noteEngineRejection_managers _ _ _ _),
      noteEngineRejection_sessionModels _ _ _ _⟩
  · simp only at h
    split at h
    · cases h
      exact ⟨.of_managers rfl, rfl⟩
    · cases h
      exact ⟨.of_managers rfl, rfl⟩

/-- The state a commit of `s` puts in place of the stream's. -/
def committedState (c : Pending) (s : Sampled) (normalized : List Fields) (id : Nat) :
    SessionState where
  stream := c.call.promptIds ++ s.tokenIds
  messages := normalized
  lastTurn := match s.tokenIds with
    | [] => none
    | _ :: _ => some
      { id := id, completionLen := s.tokenIds.length, logProbs := s.logProbs,
        finishReason := s.finishReason, engineMeta := s.engineMeta, parsedCompletion := none,
        tools := c.tools }
  replays := 0
  tools := toolList c.tools
  reasoningEffort := c.effort

/-- One commit on the stream of `c`: its state is replaced, every other stream keeps its own or
    is evicted. -/
structure Committed (p q : Provider) (c : Pending) (s : Sampled) : Prop where
  state : ∃ normalized, normalizeMessages c.messages = .ok normalized ∧
    q.streamState c.model.profile.name c.sid =
      some (committedState c s normalized (p.manager c.model.profile.name).nextId)
  once : (q.manager c.model.profile.name).nextId = (p.manager c.model.profile.name).nextId + 1
  others : ∀ k sid x, (k, sid) ≠ (c.model.profile.name, c.sid) →
    q.streamState k sid = some x → p.streamState k sid = some x

/-- **A commit**: not at all for a released stream, and where it raises nothing has changed. -/
theorem commitSampled_cases {c : Pending} {s : Sampled} {text : String}
    {g : Except PyError Generated} (h : p.commitSampled c s text = (g, q)) :
    (p.sessionModels.contains c.sid = false ∧ (∃ g', g = .ok g') ∧ q = p) ∨
      ((∃ e, g = .error e) ∧ q = p) ∨
      (p.sessionModels.contains c.sid = true ∧ Committed p q c s ∧
        g = .ok ⟨c.call.promptIds, s.tokenIds, s.logProbs, s.finishReason, text, s.engineMeta⟩) := by
  unfold commitSampled at h
  simp only at h
  split at h
  · next hpin =>
    cases h
    exact .inl ⟨by simpa using hpin, ⟨_, rfl⟩, rfl⟩
  · next hpin =>
    split at h
    · cases h
      exact .inr (.inl ⟨⟨_, rfl⟩, rfl⟩)
    · next m hm =>
      cases h
      refine .inr (.inr ⟨by simpa only [Bool.not_eq_true', Bool.not_eq_false] using hpin, ?_, rfl⟩)
      unfold TokenStreamManager.commit at hm
      split at hm
      · cases hm
      · next normalized hn =>
        cases hm
        refine ⟨⟨normalized, hn, ?_⟩, ?_, ?_⟩
        · rw [streamState_setManager, if_pos rfl,
            TokenStreamManager.publish_self _ _ (Nat.succ_pos 4095)]
          unfold TokenStreamManager.committedState committedState TokenStreamManager.lastTurnOf
          cases s.tokenIds <;> rfl
        · rw [manager_setManager, if_pos rfl, TokenStreamManager.publish_nextId]
        · intro k sid x hne hx
          rw [streamState_setManager] at hx
          split at hx
          · next e =>
            subst e
            exact TokenStreamManager.publish_other _ _ (fun e => hne (by rw [e])) hx
          · exact hx

end Provider

end RolloutProxy
