/-
  File:      RolloutProxy/TokenStream/Manager.lean
  Subject:   THE OPERATIONS OF A STREAM MANAGER: `build_prompt`, `cached_turn`, `committed_turn`,
             `commit` and `drop` (token_stream.py), each with what it leaves of every stream.

  * `buildPrompt` changes the LRU order only (`buildPrompt_get?`).
  * `cachedTurn` changes nothing but the replay count of the turn it serves
    (`cachedTurn_miss`, `cachedTurn_hit`).
  * `commit` replaces one stream; another stream keeps its state or is evicted
    (`publish_self`, `publish_other`).
-/
import RolloutProxy.TokenStream.Prompt

namespace RolloutProxy

/-- A replayed turn: prompt, completion, logprobs, finish reason and engine metadata. -/
structure ReplayedTurn where
  promptIds : List Int
  completionIds : List Int
  logProbs : List PyFloat
  finishReason : String
  engineMeta : EngineMeta

namespace TokenStreamManager

variable (c : ManagerConfig) (m : TokenStreamManager)

/-! ## 1. `build_prompt` -/

/-- `build_prompt`, with the state its lookup leaves behind. -/
def buildPrompt (sid : Option String) (messages : List Fields) (tools : Json)
    (effort : Option String) : Except PyError (List Int) × TokenStreamManager :=
  match sid with
  | none => (refuse .noSessionId, m)
  | some sid =>
    match normalizeMessages messages, validateTools tools with
    | .error e, _ => (refuse e, m)
    | .ok _, .error e => (refuse e, m)
    | .ok normalized, .ok () =>
      (c.promptFor sid (m.sessions.get? sid) (m.evicted.contains sid) normalized tools effort,
        m.touch sid)

/-- Building a prompt leaves every stream as it was. -/
theorem buildPrompt_get? (sid : Option String) (messages : List Fields) (tools : Json)
    (effort : Option String) (k : String) :
    (m.buildPrompt c sid messages tools effort).2.sessions.get? k = m.sessions.get? k := by
  unfold buildPrompt
  cases sid with
  | none => rfl
  | some sid =>
    simp only
    split <;> simp

/-! ## 2. `cached_turn` -/

/-- The state a request with these messages repeats, and its turn: the part of `cached_turn`
    between its two lock sections. -/
def repeatedTurn (state : Option SessionState) (messages : List Fields) (effort : Option String) :
    Except PyError (Option (SessionState × CommittedTurn)) :=
  match state with
  | none => .ok none
  | some st =>
    match st.lastTurn with
    | none => .ok none
    | some turn =>
      match normalizeMessages messages with
      | .error e => refuse e
      | .ok normalized =>
        if !sameMessages normalized st.messages then .ok none
        else (ManagerConfig.checkReasoningEffort st effort).map fun _ => some (st, turn)

/-- What a replay of `turn` serves. -/
def replayOf (st : SessionState) (turn : CommittedTurn) : ReplayedTurn where
  promptIds := dropLastN turn.completionLen st.stream
  completionIds := lastN turn.completionLen st.stream
  logProbs := turn.logProbs
  finishReason := turn.finishReason
  engineMeta := turn.engineMeta

/-- The second lock section: one more replay is spent, or the repeat is refused. -/
def spendReplay (sid : String) (st : SessionState) : Except PyError TokenStreamManager :=
  if c.maxTurnReplays ≤ st.replays then refuse (.replaysSpent st.replays)
  else .ok ({ m with sessions := m.sessions.set sid { st with replays := st.replays + 1 } }.touch sid)

/-- `cached_turn`. -/
def cachedTurn (sid : Option String) (messages : List Fields) (effort : Option String) :
    Except PyError (Option ReplayedTurn × TokenStreamManager) :=
  match sid with
  | none => .ok (none, m)
  | some sid => do
    match ← repeatedTurn (m.sessions.get? sid) messages effort with
    | none => return (none, m)
    | some (st, turn) =>
      let m' ← m.spendReplay c sid st
      return (some (replayOf st turn), m')

/-- A replay happens for messages equal to the committed ones, under the committed effort. -/
theorem repeatedTurn_some {state : Option SessionState} {messages : List Fields}
    {effort : Option String} {st : SessionState} {turn : CommittedTurn}
    (h : repeatedTurn state messages effort = .ok (some (st, turn))) :
    state = some st ∧ st.lastTurn = some turn ∧ effort = st.reasoningEffort ∧
      ∃ normalized, normalizeMessages messages = .ok normalized ∧
        sameMessages normalized st.messages = true := by
  unfold repeatedTurn at h
  split at h
  · cases h
  · next st' =>
    split at h
    · cases h
    · next turn' ht =>
      split at h
      · cases h
      · next normalized hn =>
        split at h
        · cases h
        · next hs =>
          obtain ⟨_, he, hp⟩ := map_ok h
          cases hp
          unfold ManagerConfig.checkReasoningEffort at he
          split at he
          · cases he
          · next heff => exact ⟨rfl, ht, by simpa using heff, normalized, hn, by simpa using hs⟩

theorem spendReplay_ok {sid : String} {st : SessionState} {m' : TokenStreamManager}
    (h : m.spendReplay c sid st = .ok m') :
    st.replays < c.maxTurnReplays ∧ m'.evicted = m.evicted ∧ m'.nextId = m.nextId ∧
      ∀ k, m'.sessions.get? k =
        if k = sid then some { st with replays := st.replays + 1 } else m.sessions.get? k := by
  unfold spendReplay at h
  split at h
  · cases h
  · next hr =>
    cases h
    refine ⟨by omega, rfl, rfl, fun k => ?_⟩
    rw [touch_get?, Dict.get?_set]

/-- Without a hit `cached_turn` leaves the manager as it was. -/
theorem cachedTurn_miss {sid : Option String} {messages : List Fields} {effort : Option String}
    {m' : TokenStreamManager} (h : m.cachedTurn c sid messages effort = .ok (none, m')) :
    m' = m := by
  unfold cachedTurn at h
  cases sid with
  | none => cases h; rfl
  | some sid =>
    obtain ⟨r, hr, h⟩ := bind_ok h
    cases r with
    | none => cases h; rfl
    | some p =>
      obtain ⟨m₁, _, h⟩ := bind_ok h
      cases h

/-- **A hit serves the committed turn** and spends one replay of it, nothing else. -/
theorem cachedTurn_hit {sid : String} {messages : List Fields} {effort : Option String}
    {r : ReplayedTurn} {m' : TokenStreamManager}
    (h : m.cachedTurn c (some sid) messages effort = .ok (some r, m')) :
    ∃ st turn, repeatedTurn (m.sessions.get? sid) messages effort = .ok (some (st, turn)) ∧
      r = replayOf st turn ∧ m.spendReplay c sid st = .ok m' := by
  unfold cachedTurn at h
  obtain ⟨p, hr, h⟩ := bind_ok h
  cases p with
  | none => cases h
  | some p =>
    obtain ⟨m₁, hm, h⟩ := bind_ok h
    cases h
    exact ⟨p.1, p.2, hr, rfl, hm⟩

/-! ## 3. `committed_turn` -/

/-- `committed_turn`: the replay state that belongs to these completion ids. -/
def committedTurn (sid : String) (completionIds : List Int) : Option CommittedTurn :=
  match m.sessions.get? sid with
  | none => none
  | some st =>
    match st.lastTurn with
    | none => none
    | some turn =>
      if completionIds.length ≠ turn.completionLen ∨
          lastN turn.completionLen st.stream ≠ completionIds then none
      else some turn

/-- `turn.parsed_completion = result` on the object with identity `id`. -/
def setParsed (sid : String) (id : Nat) (result : ParsedCompletion) : TokenStreamManager :=
  match m.sessions.get? sid with
  | none => m
  | some st =>
    match st.lastTurn with
    | none => m
    | some turn =>
      if turn.id = id then
        { m with sessions :=
          m.sessions.set sid { st with lastTurn := some { turn with parsedCompletion := some result } } }
      else m

/-! ## 4. `commit` and `drop` -/

/-- The replay data of a commit: only a nonempty completion with logprobs and a finish reason
    can be replayed. -/
def lastTurnOf (completionIds : List Int) (logProbs : Option (List PyFloat))
    (finishReason : Option String) (engineMeta : EngineMeta) (tools : Json) :
    Option CommittedTurn :=
  match completionIds, logProbs, finishReason with
  | _ :: _, some lps, some reason =>
    some { id := m.nextId, completionLen := completionIds.length, logProbs := lps,
           finishReason := reason, engineMeta := engineMeta, parsedCompletion := none,
           tools := tools }
  | _, _, _ => none

/-- The eviction loop; `fuel` bounds its turns by the number of streams. -/
def evictLoop : Nat → TokenStreamManager → TokenStreamManager
  | 0, m => m
  | fuel + 1, m =>
    if c.maxSessions < m.sessions.size then
      match m.sessions.popFirst with
      | none => m
      | some ((sid, _), rest) =>
        let evicted := m.evicted.set sid ()
        let evicted :=
          if c.maxSessions < evicted.size then
            match evicted.popFirst with
            | none => evicted
            | some (_, rest) => rest
          else evicted
        evictLoop fuel { m with sessions := rest, evicted := evicted }
    else m

/-- The state a commit publishes. -/
def committedState (normalized : List Fields) (promptIds completionIds : List Int)
    (logProbs : Option (List PyFloat)) (finishReason : Option String) (engineMeta : EngineMeta)
    (tools : Json) (effort : Option String) : SessionState where
  stream := promptIds ++ completionIds
  messages := normalized
  lastTurn := m.lastTurnOf completionIds logProbs finishReason engineMeta tools
  replays := 0
  tools := toolList tools
  reasoningEffort := effort

/-- The lock section of `commit`. -/
def publish (sid : String) (st : SessionState) : TokenStreamManager :=
  evictLoop c (m.sessions.set sid st).size
    { sessions := (m.sessions.set sid st).moveToEnd sid
      evicted := m.evicted.erase sid
      nextId := m.nextId + 1 }

/-- `commit`. -/
def commit (sid : String) (messages : List Fields) (promptIds completionIds : List Int)
    (logProbs : Option (List PyFloat)) (finishReason : Option String) (engineMeta : EngineMeta)
    (tools : Json) (effort : Option String) : Except PyError TokenStreamManager :=
  match normalizeMessages messages with
  | .error e => refuse e
  | .ok normalized =>
    .ok (m.publish c sid
      (m.committedState normalized promptIds completionIds logProbs finishReason engineMeta tools
        effort))

/-- `drop`. -/
def drop (sid : String) : TokenStreamManager :=
  { m with sessions := m.sessions.erase sid, evicted := m.evicted.erase sid }

/-! ## 5. What a commit leaves of every stream -/

theorem evictLoop_suffix : ∀ (fuel : Nat) (m : TokenStreamManager),
    (evictLoop c fuel m).sessions.entries <:+ m.sessions.entries
  | 0, m => List.suffix_refl _
  | fuel + 1, m => by
      unfold evictLoop
      split
      · split
        · exact List.suffix_refl _
        · next e v rest hp =>
          have he := Dict.popFirst_entries hp
          refine (evictLoop_suffix fuel _).trans ?_
          rw [he]
          exact List.suffix_cons _ _
      · exact List.suffix_refl _

/-- Eviction stops at the cap, so it leaves a stream where the cap does. -/
theorem evictLoop_nonempty (hc : 0 < c.maxSessions) : ∀ (fuel : Nat) (m : TokenStreamManager),
    0 < m.sessions.size → 0 < (evictLoop c fuel m).sessions.size
  | 0, m, h => h
  | fuel + 1, m, h => by
      unfold evictLoop
      split
      · next hs =>
        split
        · exact h
        · next e v rest hp =>
          have he := Dict.popFirst_entries hp
          refine evictLoop_nonempty hc fuel _ ?_
          simp only [Dict.size, he, List.length_cons] at hs ⊢
          omega
      · exact h

theorem evictLoop_nextId : ∀ (fuel : Nat) (m : TokenStreamManager),
    (evictLoop c fuel m).nextId = m.nextId
  | 0, m => rfl
  | fuel + 1, m => by
      unfold evictLoop
      split
      · split
        · rfl
        · exact evictLoop_nextId fuel _
      · rfl

/-- **The committed stream is there**: eviction takes the streams used longest ago. -/
theorem publish_self (hc : 0 < c.maxSessions) (sid : String) (st : SessionState) :
    (m.publish c sid st).sessions.get? sid = some st := by
  have hlast := Dict.moveToEnd_entries (Dict.get?_set_self m.sessions sid st)
  have hsuf := evictLoop_suffix c (m.sessions.set sid st).size
    { sessions := (m.sessions.set sid st).moveToEnd sid, evicted := m.evicted.erase sid,
      nextId := m.nextId + 1 }
  have hpos := evictLoop_nonempty c hc (m.sessions.set sid st).size
    { sessions := (m.sessions.set sid st).moveToEnd sid, evicted := m.evicted.erase sid,
      nextId := m.nextId + 1 } (by simp only [Dict.size, hlast]; simp)
  rw [Dict.get?_eq_some_iff]
  rw [hlast] at hsuf
  exact Dict.last_mem_of_suffix hsuf fun e => hpos.ne' (congrArg List.length e)

/-- Every other stream keeps its state, unless the commit evicts it. -/
theorem publish_other {sid k : String} {st x : SessionState} (hk : k ≠ sid)
    (h : (m.publish c sid st).sessions.get? k = some x) : m.sessions.get? k = some x := by
  have hsuf := evictLoop_suffix c (m.sessions.set sid st).size
    { sessions := (m.sessions.set sid st).moveToEnd sid, evicted := m.evicted.erase sid,
      nextId := m.nextId + 1 }
  have h' := Dict.get?_of_suffix hsuf h
  simpa [hk] using h'

/-- What a lookup finds behind a commit: the committed state, or an untouched one. -/
theorem publish_get?_cases {sid k : String} {st x : SessionState}
    (hx : (m.publish c sid st).sessions.get? k = some x) :
    (k = sid ∧ x = st) ∨ (k ≠ sid ∧ m.sessions.get? k = some x) := by
  by_cases hk : k = sid
  · subst hk
    have hsuf := evictLoop_suffix c (m.sessions.set k st).size
      { sessions := (m.sessions.set k st).moveToEnd k, evicted := m.evicted.erase k,
        nextId := m.nextId + 1 }
    have hget := Dict.get?_of_suffix hsuf hx
    simp only [Dict.get?_moveToEnd, Dict.get?_set_self, Option.some.injEq] at hget
    exact .inl ⟨rfl, hget.symm⟩
  · exact .inr ⟨hk, publish_other c m hk hx⟩

theorem publish_nextId (sid : String) (st : SessionState) :
    (m.publish c sid st).nextId = m.nextId + 1 := evictLoop_nextId c _ _

theorem drop_get? (sid k : String) :
    (m.drop sid).sessions.get? k = if k = sid then none else m.sessions.get? k :=
  Dict.get?_erase _ _ _

end TokenStreamManager

end RolloutProxy
