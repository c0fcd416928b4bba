/-
  File:      RolloutProxy/Echo/Prompt.lean
  Subject:   WHAT A STREAM MANAGER MAKES OF AN ECHO: nothing. Two managers that differ in the echoes
             they store build the same prompts and stay alike.

  * `seen` is a manager without its echoes; where the profile has no hook on the new messages, the
    parsed completions are not looked at either.
  * `buildPrompt_agree`: agreeing requests get the same answer from alike managers.
  * The manager's updates can be carried out on what is seen (`publish_seen`, `touch_seen`), so
    alike managers stay alike.
-/
import RolloutProxy.Echo.Agree
import RolloutProxy.TokenStream.Manager

namespace RolloutProxy

/-! ## 1. What is seen of a manager -/

/-- Replay data, without the parsed completion where no hook reads it. -/
def CommittedTurn.seen (c : ManagerConfig) (t : CommittedTurn) : CommittedTurn :=
  if c.prepareDeltaMessages.isSome then t else { t with parsedCompletion := none }

/-- A stream without its echoes. -/
def SessionState.seen (c : ManagerConfig) (st : SessionState) : SessionState :=
  { st with
    messages := st.messages.map withoutEcho
    lastTurn := st.lastTurn.map (·.seen c) }

namespace TokenStreamManager

/-- A manager without the echoes of its streams. -/
def seen (c : ManagerConfig) (m : TokenStreamManager) : TokenStreamManager :=
  { m with sessions := m.sessions.map (·.seen c) }

end TokenStreamManager

/-- A parsed completion the profile's hook can read is cached with the turn. -/
def ParsedCached (st : SessionState) : Prop :=
  ∃ turn p, st.lastTurn = some turn ∧ turn.parsedCompletion = some p

/-- What a request owes to the stream it is for: its echoes are accepted and unchanged, and the
    profile's hook, where there is one, finds the response that was served. -/
structure EchoesKept (c : ManagerConfig) (state : Option SessionState) (messages : List Fields) :
    Prop where
  normal : EchoesNormal messages
  repeats : ∀ st, state = some st → ∀ n, normalizeMessages messages = .ok n →
    RepeatsEchoes st.messages n
  cached : c.prepareDeltaMessages = none ∨
    ∀ st, state = some st → messages.any isAssistant = true → ParsedCached st

section States

variable {c : ManagerConfig} {st st' : SessionState}

theorem seen_stream (h : st.seen c = st'.seen c) : st.stream = st'.stream :=
  show (st.seen c).stream = (st'.seen c).stream by rw [h]

theorem seen_messages (h : st.seen c = st'.seen c) : Agree st.messages st'.messages :=
  congrArg SessionState.messages h

theorem seen_tools (h : st.seen c = st'.seen c) : st.tools = st'.tools :=
  show (st.seen c).tools = (st'.seen c).tools by rw [h]

theorem seen_effort (h : st.seen c = st'.seen c) : st.reasoningEffort = st'.reasoningEffort :=
  show (st.seen c).reasoningEffort = (st'.seen c).reasoningEffort by rw [h]

/-- Under a hook the replay data is seen as it is. -/
theorem seen_lastTurn (h : st.seen c = st'.seen c) (hc : c.prepareDeltaMessages.isSome = true) :
    st.lastTurn = st'.lastTurn := by
  have hid : (fun t : CommittedTurn => t.seen c) = id := by
    funext t
    simp [CommittedTurn.seen, hc]
  have hl : st.lastTurn.map (·.seen c) = st'.lastTurn.map (·.seen c) :=
    congrArg SessionState.lastTurn h
  rw [hid, Option.map_id] at hl
  exact hl

/-! ## 2. Building a prompt -/

/-- **The hook sees what was served**, in whatever spelling the client echoed it. -/
theorem preparedMessages_agree (h : st.seen c = st'.seen c)
    (hcached : c.prepareDeltaMessages = none ∨ ParsedCached st) (echo echo' : Fields)
    (new : List Fields) :
    c.preparedMessages st echo new = c.preparedMessages st' echo' new := by
  unfold ManagerConfig.preparedMessages
  cases hc : c.prepareDeltaMessages with
  | none => rfl
  | some prepare =>
      rcases hcached with hn | ⟨turn, p, ht, hp⟩
      · rw [hn] at hc; cases hc
      · have hl := seen_lastTurn h (by rw [hc]; rfl)
        have hs : ∀ e, ManagerConfig.servedAssistant st e = ManagerConfig.servedAssistant st echo := by
          intro e
          simp only [ManagerConfig.servedAssistant, ht, Option.bind_some, hp]
        have hs' : ManagerConfig.servedAssistant st' echo' = ManagerConfig.servedAssistant st echo' := by
          simp only [ManagerConfig.servedAssistant, hl]
        simp only [hs', hs echo']

theorem deltaIds_agree (h : st.seen c = st'.seen c)
    (hcached : c.prepareDeltaMessages = none ∨ ParsedCached st) {n n' : List Fields}
    (hn : Agree n n') (hr : RepeatsEchoes st.messages n) (hr' : RepeatsEchoes st'.messages n')
    (sid : String) : c.deltaIds sid st n = c.deltaIds sid st' n' := by
  unfold ManagerConfig.deltaIds
  rcases newMessages_agree (seen_messages h) hn hr hr' with
    ⟨e, he, he'⟩ | ⟨echo, echo', new, he, he'⟩
  · rw [he, he']
    rfl
  · rw [he, he']
    simp only [ok_bind, preparedMessages_agree h hcached echo echo' new, seen_stream h]

theorem promptFor_agree {state state' : Option SessionState}
    (h : state.map (·.seen c) = state'.map (·.seen c)) {messages messages' n n' : List Fields}
    (hk : EchoesKept c state messages) (hk' : EchoesKept c state' messages')
    (hm : normalizeMessages messages = .ok n) (hm' : normalizeMessages messages' = .ok n')
    (hn : Agree n n') (sid : String) (evicted : Bool) (tools : Json) (effort : Option String) :
    c.promptFor sid state evicted n tools effort = c.promptFor sid state' evicted n' tools effort := by
  have hfind : n.findIdx? isAssistant = n'.findIdx? isAssistant := by
    have e : ∀ x : List Fields, x.findIdx? isAssistant = (x.map isAssistant).findIdx? id := by
      intro x
      rw [List.findIdx?_map]
      rfl
    rw [e n, e n', hn.map_eq isAssistant_withoutEcho]
  unfold ManagerConfig.promptFor
  rw [← hfind]
  cases hi : n.findIdx? isAssistant with
  | none =>
      have hno : n.any isAssistant = false := by
        rw [List.findIdx?_eq_none_iff] at hi
        rw [List.any_eq_false]
        exact fun x hx => by simpa using hi x hx
      -- without an echo the requests are the same
      have hnn : n = n' := hn.eq_of_no_assistant hno
      subst hnn
      cases state with
      | none =>
          cases state' with
          | none => rfl
          | some st' => cases h
      | some st =>
          cases state' with
          | none => cases h
          | some st' =>
              have hst : st.seen c = st'.seen c := Option.some.inj h
              simp only [extendsConversation_agree (seen_messages hst) hno,
                (seen_messages hst).length_eq]
  | some i =>
      cases state with
      | none =>
          cases state' with
          | none => rfl
          | some st' => cases h
      | some st =>
          cases state' with
          | none => cases h
          | some st' =>
              have hst : st.seen c = st'.seen c := Option.some.inj h
              have hass : messages.any isAssistant = true := by
                rw [← normalizeMessages_any hm, List.any_eq_true]
                obtain ⟨x, hx, hax⟩ := @List.findIdx?_isSome _ n isAssistant ▸
                  (show (n.findIdx? isAssistant).isSome = true by rw [hi]; rfl) |> List.any_eq_true.mp
                exact ⟨x, hx, hax⟩
              -- with one, the states agree in all that the delta is made of
              have hcached : c.prepareDeltaMessages = none ∨ ParsedCached st :=
                hk.cached.imp id fun hc => hc st rfl hass
              have hd := deltaIds_agree hst hcached hn (hk.repeats st rfl n hm)
                (hk'.repeats st' rfl n' hm') sid
              simp only [hd, seen_tools hst, seen_stream hst, ManagerConfig.checkReasoningEffort,
                seen_effort hst]

end States

/-! ## 3. Alike managers stay alike -/

namespace TokenStreamManager

variable (c : ManagerConfig)

theorem touch_seen (m : TokenStreamManager) (sid : String) :
    (m.touch sid).seen c = (m.seen c).touch sid := by
  simp only [touch, seen, Dict.map_moveToEnd]

theorem evictLoop_seen : ∀ (fuel : Nat) (m : TokenStreamManager),
    (evictLoop c fuel m).seen c = evictLoop c fuel (m.seen c)
  | 0, m => rfl
  | fuel + 1, m => by
      unfold evictLoop
      rw [show (m.seen c).sessions = m.sessions.map (·.seen c) from rfl, Dict.size_map,
        Dict.popFirst_map]
      by_cases hs : c.maxSessions < m.sessions.size
      · rw [if_pos hs, if_pos hs]
        cases m.sessions.popFirst with
        | none => rfl
        | some p => exact evictLoop_seen fuel _
      · rw [if_neg hs, if_neg hs]

/-- **A commit is seen as a commit of what is seen.** -/
theorem publish_seen (m : TokenStreamManager) (sid : String) (st : SessionState) :
    (m.publish c sid st).seen c = (m.seen c).publish c sid (st.seen c) := by
  unfold publish
  rw [evictLoop_seen]
  have hset : (m.sessions.set sid st).map (·.seen c) = (m.seen c).sessions.set sid (st.seen c) :=
    Dict.map_set _ _ _ _
  have hsize : (m.sessions.set sid st).size = ((m.seen c).sessions.set sid (st.seen c)).size := by
    rw [← hset, Dict.size_map]
  rw [hsize]
  simp only [seen, Dict.map_moveToEnd, Dict.map_set]

variable {c}

theorem seen_get? {m m' : TokenStreamManager} (h : m.seen c = m'.seen c) (sid : String) :
    (m.sessions.get? sid).map (·.seen c) = (m'.sessions.get? sid).map (·.seen c) := by
  have hs : m.sessions.map (·.seen c) = m'.sessions.map (·.seen c) :=
    congrArg TokenStreamManager.sessions h
  rw [← Dict.get?_map, ← Dict.get?_map, hs]

theorem seen_nextId {m m' : TokenStreamManager} (h : m.seen c = m'.seen c) :
    m.nextId = m'.nextId := show (m.seen c).nextId = (m'.seen c).nextId by rw [h]

/-- **Agreeing requests are answered alike**: the same exception or the same prompt, by managers
    that stay alike. -/
theorem buildPrompt_agree {m m' : TokenStreamManager} (h : m.seen c = m'.seen c) {sid : String}
    {messages messages' : List Fields} (hm : Agree messages messages')
    (hk : EchoesKept c (m.sessions.get? sid) messages)
    (hk' : EchoesKept c (m'.sessions.get? sid) messages') (tools : Json) (effort : Option String) :
    (m.buildPrompt c (some sid) messages tools effort).1 =
        (m'.buildPrompt c (some sid) messages' tools effort).1 ∧
      (m.buildPrompt c (some sid) messages tools effort).2.seen c =
        (m'.buildPrompt c (some sid) messages' tools effort).2.seen c := by
  unfold buildPrompt
  have he : m.evicted = m'.evicted :=
    show (m.seen c).evicted = (m'.seen c).evicted by rw [h]
  rcases normalizeMessages_agree hm hk.normal hk'.normal with
    ⟨e, hn, hn'⟩ | ⟨n, n', hn, hn', hnn⟩
  · simp only [hn, hn']
    exact ⟨trivial, h⟩
  · simp only [hn, hn']
    cases validateTools tools with
    | error e => exact ⟨rfl, h⟩
    | ok u =>
        refine ⟨?_, by simp only [touch_seen, h]⟩
        simp only [he]
        exact promptFor_agree (seen_get? h sid) hk hk' hn hn' hnn sid _ tools effort

end TokenStreamManager

end RolloutProxy
